import Bluetalk.Poker.Steps

/-!
# Who sits at the table, and when a hand runs

Nobody sits twice, the players are listed by their seats, and there are nine at most (`Seated`).
While a hand runs at least two players can still win it, and while none runs nobody is to act
(`Turned`). Both hold in every run (`Created.settled`, `Settled.step`).
-/

open List

namespace Bluetalk.Poker.Table

variable {t t' : Table} {i : Nat} {peerId : String} {p : Player} {a : Action} {e : HostEvent}

/-- The players and their seats -/
def places (t : Table) : List (String × Nat) := t.players.map fun p => (p.peerId, p.seat)

structure Seated (t : Table) : Prop where
  ids : (t.players.map (·.peerId)).Nodup
  sorted : t.places.Pairwise (·.2 ≤ ·.2)
  size : t.places.length ≤ 9
  seats : ∀ place ∈ t.places, place.2 < 9
  cfg : t.cfg.Sane

structure Turned (t : Table) : Prop where
  idle : t.stage.running = false → t.toActIdx = -1
  contested : t.stage.running = true → 2 ≤ t.activeInHand.length

/-- What holds of the table at all times. -/
structure Settled (t : Table) : Prop where
  seated : t.Seated
  turned : t.Turned

/-! ## Seats -/

theorem map_fst_places (t : Table) : t.places.map Prod.fst = t.players.map (·.peerId) := by
  rw [places, map_map]
  rfl

theorem Seated.of_sublist (H : t.Seated) (h : t'.places.Sublist t.places) (hcfg : t'.cfg = t.cfg) :
    t'.Seated where
  ids := by
    rw [← map_fst_places]
    exact (t.map_fst_places ▸ H.ids).sublist (h.map _)
  sorted := H.sorted.sublist h
  size := h.length_le.trans H.size
  seats place hplace := H.seats place (h.subset hplace)
  cfg := hcfg ▸ H.cfg

theorem Seated.of_places (H : t.Seated) (h : t'.places = t.places) (hcfg : t'.cfg = t.cfg) :
    t'.Seated := H.of_sublist (h ▸ .refl _) hcfg

theorem places_of_dealt (h : t'.players.map Player.dealt = t.players.map Player.dealt) :
    t'.places = t.places := by
  have hmap := congrArg (List.map fun d : String × Nat × Bool × List Card => (d.1, d.2.1)) h
  rwa [map_map, map_map] at hmap

theorem Bets.places (h : Bets t t') : t'.places = t.places := places_of_dealt h.dealt

theorem places_modifyPlayer {f : Player → Player}
    (hf : ∀ p, ((f p).peerId, (f p).seat) = (p.peerId, p.seat)) (t : Table) (i : Nat) :
    (t.modifyPlayer i f).places = t.places := map_modify_of_eq hf _ _

@[simp] theorem places_lobbyIfEmpty (t : Table) : t.lobbyIfEmpty.places = t.places := by
  rw [lobbyIfEmpty]
  split <;> rfl

@[simp] theorem players_lobbyIfEmpty (t : Table) : t.lobbyIfEmpty.players = t.players := by
  rw [lobbyIfEmpty]
  split <;> rfl

@[simp] theorem cfg_lobbyIfEmpty (t : Table) : t.lobbyIfEmpty.cfg = t.cfg := by
  rw [lobbyIfEmpty]
  split <;> rfl

@[simp] theorem toActIdx_lobbyIfEmpty (t : Table) : t.lobbyIfEmpty.toActIdx = t.toActIdx := by
  rw [lobbyIfEmpty]
  split <;> rfl

theorem bySeat_perm (players : List Player) : (bySeat players).Perm players :=
  perm_insertionSort _ _

theorem seatPlayer_eq_some (h : t.seatPlayer peerId = some t') :
    ∃ seat, t.newSeat = some seat ∧ seat < t.cfg.maxPlayers ∧
      t.players.length < t.cfg.maxPlayers ∧
      t' = { t with players := bySeat (t.players ++ [t.newPlayer peerId seat]) } := by
  obtain ⟨seat, hseat, rfl⟩ := Option.map_eq_some_iff.mp h
  have hfree := hseat
  rw [newSeat] at hfree
  split at hfree
  · cases hfree
  · rename_i hroom
    exact ⟨seat, hseat, mem_range.mp (mem_of_find?_eq_some hfree), not_le.mp hroom, rfl⟩

theorem Seated.seatPlayer (H : t.Seated) (hid : peerId ∉ t.players.map (·.peerId))
    (h : t.seatPlayer peerId = some t') : t'.Seated := by
  obtain ⟨seat, -, hseat, hroom, rfl⟩ := seatPlayer_eq_some h
  have hmax := H.cfg.maxPlayers
  have hperm := bySeat_perm (t.players ++ [t.newPlayer peerId seat])
  exact {
    ids := by
      refine (hperm.map _).nodup_iff.mpr ?_
      rw [map_append, nodup_append]
      exact ⟨H.ids, nodup_singleton _, fun a ha b hb hab => hid (by simp_all [newPlayer])⟩
    sorted := by
      refine pairwise_map.mpr ?_
      exact pairwise_insertionSort (fun p q : Player => p.seat ≤ q.seat) _
    size := by
      rw [places, length_map, hperm.length_eq, length_append, length_singleton]
      omega
    seats := by
      intro place hplace
      obtain ⟨q, hq, rfl⟩ := mem_map.mp hplace
      rcases mem_append.mp (hperm.mem_iff.mp hq) with hq | hq
      · exact H.seats _ (mem_map_of_mem hq)
      · rw [mem_singleton.mp hq]
        exact hseat.trans_le hmax
    cfg := H.cfg }

theorem foldl_max_le {l : List Nat} {m k : Nat} (hm : m ≤ k) (hl : ∀ n ∈ l, n ≤ k) :
    l.foldl max m ≤ k := by
  induction l generalizing m with
  | nil => exact hm
  | cons n l ih =>
    rw [forall_mem_cons] at hl
    exact ih (Nat.max_le.mpr ⟨hm, hl.1⟩) hl.2

theorem Seated.occupiedSeats (H : t.Seated) :
    (t.players.map (·.seat + 1)).foldl max 2 ≤ 9 := by
  refine foldl_max_le (by decide) fun n hn => ?_
  obtain ⟨p, hp, rfl⟩ := mem_map.mp hn
  exact H.seats _ (mem_map_of_mem hp)

/-! ## Who can still win -/

theorem length_activeInHand (t : Table) :
    t.activeInHand.length = (t.players.map (·.active)).count true := by
  rw [activeInHand, ← countP_eq_length_filter, List.count, countP_map]
  refine countP_congr fun p _ => ?_
  simp

theorem Turned.of_running (hturn : t.stage.running = true) (h : 2 ≤ t.activeInHand.length) :
    t.Turned := ⟨fun hidle => absurd (hturn.symm.trans hidle) (by decide), fun _ => h⟩

theorem Turned.of_idle (hidle : t.stage.running = false) (h : t.toActIdx = -1) : t.Turned :=
  ⟨fun _ => h, fun hturn => absurd (hturn.symm.trans hidle) (by decide)⟩

theorem Turned.congr (H : t.Turned) (hstage : t'.stage = t.stage) (hturn : t'.toActIdx = t.toActIdx)
    (hactive : t'.players.map (·.active) = t.players.map (·.active)) : t'.Turned where
  idle h := hturn.trans (H.idle (hstage ▸ h))
  contested h := by
    rw [length_activeInHand, hactive, ← length_activeInHand]
    exact H.contested (hstage ▸ h)

theorem Turned.running (H : t.Turned) (h : t.player? t.toActIdx = some p) :
    t.stage.running = true := by
  cases hrunning : t.stage.running with
  | true => rfl
  | false =>
    rw [H.idle hrunning, player?, if_neg (by decide)] at h
    cases h

theorem two_le_activeInHand (hmany : t.activeInHand.length ≠ 1)
    (hlive : t.activeInHand.any (!·.allIn) = true) : 2 ≤ t.activeInHand.length := by
  obtain ⟨p, hp, -⟩ := any_eq_true.mp hlive
  have hpos := length_pos_of_mem hp
  omega

/-! ## The ends of an action -/

/-- The hand is over. -/
structure Ended (t t' : Table) : Prop where
  places : t'.places = t.places
  cfg : t'.cfg = t.cfg
  stage : t'.stage = .between
  toActIdx : t'.toActIdx = -1
  dealerIdx : t'.dealerIdx = t.dealerIdx

theorem Ended.turned (h : Ended t t') : t'.Turned :=
  .of_idle (by rw [h.stage]; rfl) h.toActIdx

theorem ended_awardUncontested (h : t.awardUncontested = some t') : Ended t t' := by
  rw [awardUncontested] at h
  split at h
  · cases h
    refine ⟨?_, rfl, rfl, rfl, rfl⟩
    rw [Table.places, map_map]
    refine map_congr_left fun p _ => ?_
    rw [Function.comp_apply]
    split <;> rfl
  · cases h

theorem places_pay (t : Table) (payout : String × Nat) : (t.pay payout).places = t.places := by
  rw [pay]
  split
  · rfl
  · exact places_modifyPlayer (f := (·.win (.amount payout.2))) (fun _ => rfl) t _

theorem cfg_pay (t : Table) (payout : String × Nat) :
    (t.pay payout).cfg = t.cfg ∧ (t.pay payout).dealerIdx = t.dealerIdx := by
  rw [pay]
  split
  · exact ⟨rfl, rfl⟩
  · exact ⟨rfl, rfl⟩

theorem ended_showdown (t : Table) : Ended t t.showdown := by
  have hpay : ∀ (l : List (String × Nat)) (t : Table),
      (l.foldl pay t).places = t.places ∧ (l.foldl pay t).cfg = t.cfg ∧
        (l.foldl pay t).dealerIdx = t.dealerIdx := by
    intro l
    induction l with
    | nil => exact fun t => ⟨rfl, rfl, rfl⟩
    | cons payout l ih =>
      intro t
      obtain ⟨hplaces, hcfg, hdealer⟩ := ih (t.pay payout)
      exact ⟨hplaces.trans (t.places_pay payout), hcfg.trans (t.cfg_pay payout).1,
        hdealer.trans (t.cfg_pay payout).2⟩
  obtain ⟨hplaces, hcfg, hdealer⟩ := hpay t.payouts t
  exact ⟨hplaces, hcfg, rfl, rfl, hdealer⟩

@[simp] theorem dealt_clearRoundBet (p : Player) : p.clearRoundBet.dealt = p.dealt := by
  rw [Player.clearRoundBet]
  split <;> rfl

@[simp] theorem active_clearRoundBet (p : Player) : p.clearRoundBet.active = p.active := by
  rw [Player.clearRoundBet]
  split <;> rfl

theorem players_dealStreet (t : Table) : t.dealStreet.players = t.players := by
  unfold dealStreet
  split <;> rfl

theorem cfg_dealStreet (t : Table) : t.dealStreet.cfg = t.cfg := by
  unfold dealStreet
  split <;> rfl

theorem dealt_clearRoundBets (t : Table) :
    t.clearRoundBets.players.map Player.dealt = t.players.map Player.dealt := by
  rw [clearRoundBets, map_map]
  exact map_congr_left fun p _ => dealt_clearRoundBet p

theorem active_clearRoundBets (t : Table) :
    t.clearRoundBets.players.map (·.active) = t.players.map (·.active) := by
  rw [clearRoundBets, map_map]
  exact map_congr_left fun p _ => active_clearRoundBet p

theorem dealt_runoutStep (t : Table) :
    t.runoutStep.players.map Player.dealt = t.players.map Player.dealt := by
  unfold runoutStep
  split
  · rw [players_dealStreet, dealt_clearRoundBets]
  · rw [players_dealStreet, dealt_clearRoundBets]
  · rw [players_dealStreet, dealt_clearRoundBets]
  · rfl

theorem cfg_runoutStep (t : Table) : t.runoutStep.cfg = t.cfg := by
  unfold runoutStep
  split
  · rw [cfg_dealStreet, clearRoundBets]
  · rw [cfg_dealStreet, clearRoundBets]
  · rw [cfg_dealStreet, clearRoundBets]
  · rfl

theorem dealt_runoutBoard (t : Table) :
    t.runoutBoard.players.map Player.dealt = t.players.map Player.dealt := by
  rw [runoutBoard, dealt_runoutStep, dealt_runoutStep, dealt_runoutStep]

theorem cfg_runoutBoard (t : Table) : t.runoutBoard.cfg = t.cfg := by
  rw [runoutBoard, cfg_runoutStep, cfg_runoutStep, cfg_runoutStep]

theorem dealerIdx_dealStreet (t : Table) : t.dealStreet.dealerIdx = t.dealerIdx := by
  unfold dealStreet
  split <;> rfl

theorem dealerIdx_runoutStep (t : Table) : t.runoutStep.dealerIdx = t.dealerIdx := by
  unfold runoutStep
  split
  · exact dealerIdx_dealStreet _
  · exact dealerIdx_dealStreet _
  · exact dealerIdx_dealStreet _
  · rfl

theorem dealerIdx_runoutBoard (t : Table) : t.runoutBoard.dealerIdx = t.dealerIdx := by
  rw [runoutBoard, dealerIdx_runoutStep, dealerIdx_runoutStep, dealerIdx_runoutStep]

theorem dealerIdx_tail (t : Table) : t.tail.table.dealerIdx = t.dealerIdx := by
  have h := t.tails_tail
  generalize t.tail = r at h
  cases h with
  | awards h => exact (ended_awardUncontested h).dealerIdx
  | runsOut => exact (ended_showdown _).dealerIdx.trans t.dealerIdx_runoutBoard
  | shows => exact (ended_showdown _).dealerIdx
  | advances => exact dealerIdx_dealStreet _
  | passes => rfl

theorem players_advanceStreet (t : Table) :
    t.advanceStreet.players = t.clearRoundBets.players := players_dealStreet _

theorem cfg_advanceStreet (t : Table) : t.advanceStreet.cfg = t.cfg := cfg_dealStreet _

theorem running_advanceStreet (hrunning : t.stage.running = true) (hriver : t.stage ≠ .river) :
    t.advanceStreet.stage.running = true := by
  rw [advanceStreet]
  unfold dealStreet clearRoundBets
  cases hstage : t.stage with
  | lobby | between => rw [hstage] at hrunning; cases hrunning
  | river => exact absurd hstage hriver
  | preflop | flop | turn => rfl

theorem turned_tail (hrunning : t.stage.running = true) : t.tail.table.Turned := by
  have h := t.tails_tail
  generalize t.tail = r at h
  cases h with
  | awards h => exact (ended_awardUncontested h).turned
  | runsOut | shows => exact (ended_showdown _).turned
  | advances hmany hlive hriver =>
    refine .of_running (running_advanceStreet hrunning hriver) ?_
    rw [Progress.table, length_activeInHand, players_advanceStreet, active_clearRoundBets,
      ← length_activeInHand]
    exact two_le_activeInHand hmany hlive
  | passes hmany hlive => exact .of_running hrunning (two_le_activeInHand hmany hlive)

theorem places_tail (t : Table) : t.tail.table.places = t.places ∧ t.tail.table.cfg = t.cfg := by
  have h := t.tails_tail
  generalize t.tail = r at h
  cases h with
  | awards h => exact ⟨(ended_awardUncontested h).places, (ended_awardUncontested h).cfg⟩
  | runsOut =>
    exact ⟨(ended_showdown _).places.trans (places_of_dealt t.dealt_runoutBoard),
      (ended_showdown _).cfg.trans t.cfg_runoutBoard⟩
  | shows => exact ⟨(ended_showdown _).places, (ended_showdown _).cfg⟩
  | advances =>
    refine ⟨places_of_dealt ?_, t.cfg_advanceStreet⟩
    rw [Progress.table, players_advanceStreet, dealt_clearRoundBets]
  | passes => exact ⟨rfl, rfl⟩

end Bluetalk.Poker.Table

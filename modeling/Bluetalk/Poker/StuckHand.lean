import Bluetalk.Poker.LiveTurn

/-!
# A hand can always finish

A running hand waits for a player who can act all along every run in which nobody who cannot act
comes to stand at the position whose turn it is: by a player put in before it, by one taken from
before it, or because the player to act is kicked and no other can act (`ready_of_staysOnTurn`).
-/

open List Option

namespace Bluetalk.Poker.Table

variable {t t' : Table} {i j : Nat} {peerId : String} {p : Player} {e : HostEvent}
  {es : List HostEvent} {players : List Player} {f : Player → Player} {r : Progress}

/-! ## A player sits down -/

theorem orderedInsert_bySeat {x : Player} {l : List Player} (h : ∀ y ∈ l, x.seat ≤ y.seat) :
    List.orderedInsert (fun p q : Player => p.seat ≤ q.seat) x l = x :: l := by
  cases l with
  | nil => rfl
  | cons y l => rw [orderedInsert_cons, if_pos (h y mem_cons_self)]

theorem bySeat_append (h : players.Pairwise (·.seat ≤ ·.seat))
    (p : Player) : bySeat (players ++ [p]) =
      players.takeWhile (·.seat ≤ p.seat) ++ p :: players.dropWhile (·.seat ≤ p.seat) := by
  induction players with
  | nil => rfl
  | cons x l ih =>
    obtain ⟨hx, hl⟩ := pairwise_cons.mp h
    have hsplit := takeWhile_append_dropWhile (p := fun q : Player => decide (q.seat ≤ p.seat))
      (l := l)
    rw [bySeat, cons_append, insertionSort_cons, ← bySeat, ih hl]
    by_cases hle : x.seat ≤ p.seat
    · rw [orderedInsert_bySeat, takeWhile_cons_of_pos (by simpa using hle),
        dropWhile_cons_of_pos (by simpa using hle), cons_append]
      intro y hy
      rcases mem_append.mp hy with hy | hy
      · exact hx y (hsplit ▸ mem_append_left _ hy)
      · rcases mem_cons.mp hy with rfl | hy
        · exact hle
        · exact hx y (hsplit ▸ mem_append_right _ hy)
    · have hhigh : ∀ y ∈ l, ¬y.seat ≤ p.seat := fun y hy hyp => hle ((hx y hy).trans hyp)
      have htake : l.takeWhile (·.seat ≤ p.seat) = [] := by
        cases l with
        | nil => rfl
        | cons y l =>
          exact takeWhile_cons_of_neg (by simpa using hhigh y mem_cons_self)
      have hdrop : l.dropWhile (·.seat ≤ p.seat) = l := by
        rw [htake, nil_append] at hsplit
        exact hsplit
      rw [htake, hdrop, takeWhile_cons_of_neg (by simpa using hle),
        dropWhile_cons_of_neg (by simpa using hle), nil_append, nil_append,
        orderedInsert_cons, if_neg hle, orderedInsert_bySeat hx]

theorem getElem?_bySeat (h : players.Pairwise (·.seat ≤ ·.seat))
    (p : Player) {q : Player} (hq : players[j]? = some q) :
    (q.seat ≤ p.seat → (bySeat (players ++ [p]))[j]? = some q) ∧
      (p.seat < q.seat → (bySeat (players ++ [p]))[j + 1]? = some q) := by
  induction players generalizing j with
  | nil => cases hq
  | cons x l ih =>
    obtain ⟨hx, hl⟩ := pairwise_cons.mp h
    rw [bySeat_append h]
    rw [bySeat_append hl] at ih
    by_cases hle : x.seat ≤ p.seat
    · rw [takeWhile_cons_of_pos (by simpa using hle),
        dropWhile_cons_of_pos (by simpa using hle), cons_append]
      cases j with
      | zero =>
        cases hq
        exact ⟨fun _ => rfl, fun hlt => absurd hle (not_le.mpr hlt)⟩
      | succ j => exact ih hl hq
    · rw [takeWhile_cons_of_neg (by simpa using hle),
        dropWhile_cons_of_neg (by simpa using hle), nil_append]
      have hhigh : p.seat < q.seat := by
        have hp : p.seat < x.seat := not_le.mp hle
        rcases mem_cons.mp (mem_of_getElem? hq) with rfl | hmem
        · exact hp
        · exact hp.trans_le (hx q hmem)
      exact ⟨fun hlow => absurd hlow (not_le.mpr hhigh), fun _ => hq⟩

/-! ## The condition -/

/-- Whether a bot that is put in on `seat` leaves the turn with a player who can act -/
def botFits (t : Table) (seat : Nat) : Bool :=
  (t.player? t.toActIdx).all (·.seat ≤ seat) ||
    (t.player? (t.toActIdx - 1)).any fun p => p.live && seat < p.seat

/-- Whether the turn stays with a player who can act when the player at position `i` leaves, who is
not in the hand -/
def leaverFits (t : Table) (i : Nat) : Bool :=
  t.players[i]?.any (·.inHand) || t.toActIdx < i || t.liveAt (t.toActIdx + 1)

/-- Whether someone else can act when `peerId` is kicked, or the hand ends -/
def kickFits (t : Table) (peerId : String) : Bool :=
  (t.player? t.toActIdx).all (·.peerId ≠ peerId) ||
    (t.activeInHand.filter (·.peerId ≠ peerId)).length = 1 ||
    t.players.any fun p => p.live && p.peerId ≠ peerId

/-- The events that leave the turn of a running hand with a player who can act -/
def staysOnTurn (t : Table) (e : HostEvent) : Bool :=
  !t.stage.running ||
    match e, t.leaving e with
    | .addBot, _ => t.players.any (·.peerId = botPeerId) || t.newSeat.all t.botFits
    | .kick peerId, _ => t.kickFits peerId
    | _, some peerId => (t.playerIndex peerId).all t.leaverFits
    | _, none => true

/-! ## One step -/

theorem players_congr_ready (H : t.Ready) (hstage : t'.stage = t.stage)
    (hturn : t'.toActIdx = t.toActIdx)
    (hlive : t'.players.map (·.live) = t.players.map (·.live)) : t'.Ready := by
  intro hrunning
  have hready := H (hstage ▸ hrunning)
  rw [liveAt, player?] at hready ⊢
  rw [hturn]
  split at hready
  · rename_i hnonneg
    rw [if_pos hnonneg, any_player? hlive]
    exact hready
  · cases hready

theorem Ready.modify (H : t.Ready) (i : Nat)
    (hlive : ∀ p, (f p).live = p.live) : (t.modifyPlayer i f).Ready :=
  players_congr_ready H rfl rfl (map_modify_of_eq hlive _ _)

theorem liveAt_modify (h : t.liveAt t.toActIdx = true)
    (hi : t.toActIdx ≠ i) : (t.modifyPlayer i f).liveAt t.toActIdx = true := by
  obtain ⟨j, hj, p, hp, hlive⟩ := liveAt_iff.mp h
  refine liveAt_iff.mpr ⟨j, hj, p, ?_, hlive⟩
  rw [modifyPlayer, getElem?_modify_ne _ _ (by omega)]
  exact hp

theorem ready_seatPlayer (H : t.Settled) (hready : t.Ready) (hseat : t.seatPlayer peerId = some t')
    (hfits : t.stage.running = true → t.newSeat.all t.botFits = true) : t'.Ready := by
  intro hrunning
  obtain ⟨seat, hnew, -, -, rfl⟩ := seatPlayer_eq_some hseat
  have hsorted := pairwise_map.mp H.seated.sorted
  obtain ⟨j, hj, p, hp, hlive⟩ := liveAt_iff.mp (hready hrunning)
  have hfits := hfits hrunning
  rw [hnew, all_some, botFits, hj, player?, if_pos (Int.natCast_nonneg j), Int.toNat_natCast,
    hp, all_some, Bool.or_eq_true, decide_eq_true_eq] at hfits
  rcases hfits with hle | hbefore
  · exact liveAt_iff.mpr ⟨j, hj, p, (getElem?_bySeat hsorted (t.newPlayer peerId seat) hp).1 hle,
      hlive⟩
  obtain ⟨q, hq, hlive⟩ := (any_eq_true _ _).mp hbefore
  rw [Bool.and_eq_true, decide_eq_true_eq] at hlive
  rw [player?] at hq
  split at hq
  · rename_i hnonneg
    have hindex : ((j : Int) - 1).toNat + 1 = j := by omega
    refine liveAt_iff.mpr ⟨j, hj, q, ?_, hlive.1⟩
    rw [← hindex]
    exact (getElem?_bySeat hsorted (t.newPlayer peerId seat) hq).2 hlive.2
  · cases hq

theorem running_of_lobbyIfEmpty (h : t.lobbyIfEmpty.stage.running = true) :
    t.stage.running = true := by
  rw [lobbyIfEmpty] at h
  split at h
  · exact absurd h Bool.false_ne_true
  · exact h

theorem running_of_takeOff (h : (t.takeOff i).stage.running = true) : t.stage.running = true := by
  rw [takeOff] at h
  exact (running_of_lobbyIfEmpty h :)

theorem running_of_kickOut (h : (t.kickOut i).stage.running = true) : t.stage.running = true := by
  rw [kickOut] at h
  exact (running_of_lobbyIfEmpty h :)

@[simp] theorem dealerIdx_lobbyIfEmpty (t : Table) : t.lobbyIfEmpty.dealerIdx = t.dealerIdx := by
  rw [lobbyIfEmpty]
  split <;> rfl

theorem ready_takeOff (hready : t.Ready)
    (hfits : t.stage.running = true → t.toActIdx < i ∨ t.liveAt (t.toActIdx + 1) = true) :
    (t.takeOff i).Ready := by
  intro hrunning
  have hrunning := running_of_takeOff hrunning
  obtain ⟨j, hj, p, hp, hlive⟩ := liveAt_iff.mp (hready hrunning)
  refine liveAt_iff.mpr ⟨j, (toActIdx_lobbyIfEmpty _).trans hj, ?_⟩
  rw [takeOff, players_lobbyIfEmpty, getElem?_eraseIdx]
  rcases hfits hrunning with hlt | hnext
  · rw [if_pos (by omega)]
    exact ⟨p, hp, hlive⟩
  obtain ⟨j', hj', q, hq, hlive'⟩ := liveAt_iff.mp hnext
  obtain rfl : j' = j + 1 := by omega
  split
  · exact ⟨p, hp, hlive⟩
  · exact ⟨q, hq, hlive'⟩

theorem liveAt_kickOut (h : t.liveAt t.toActIdx = true) (hi : t.toActIdx ≠ i) :
    (t.kickOut i).liveAt (t.kickOut i).toActIdx = true := by
  obtain ⟨j, hj, p, hp, hlive⟩ := liveAt_iff.mp h
  have hplace : ∃ k : Nat, (if (i : Int) < t.toActIdx then t.toActIdx - 1 else t.toActIdx) = k ∧
      (t.players.eraseIdx i)[k]? = some p := by
    by_cases hbefore : (i : Int) < t.toActIdx
    · refine ⟨j - 1, by rw [if_pos hbefore]; omega, ?_⟩
      rw [getElem?_eraseIdx, if_neg (by omega), show j - 1 + 1 = j by omega]
      exact hp
    · refine ⟨j, by rw [if_neg hbefore]; exact hj, ?_⟩
      rw [getElem?_eraseIdx, if_pos (by omega)]
      exact hp
  obtain ⟨k, hk, hp'⟩ := hplace
  obtain ⟨hlt', -⟩ := List.getElem?_eq_some_iff.mp hp'
  refine liveAt_iff.mpr ⟨k, ?_, p, ?_, hlive⟩
  · rw [kickOut, toActIdx_lobbyIfEmpty]
    dsimp only
    rw [hk, if_neg (by omega)]
  · rw [kickOut, players_lobbyIfEmpty]
    exact hp'

theorem ready_kickActor (hidx : -1 ≤ t.toActIdx)
    (hindex : t.playerIndex peerId = some i)
    (hother : ∃ p ∈ t.players, p.live = true ∧ p.peerId ≠ peerId) :
    ((t.foldsOut i peerId).passTurn.kickOut i).Ready := by
  intro _
  have hremain : ∃ p ∈ (t.foldsOut i peerId).players, p.live = true := by
    obtain ⟨p, hp, hlive, hne⟩ := hother
    obtain ⟨j, hj⟩ := mem_iff_getElem?.mp hp
    refine ⟨p, mem_of_getElem? (i := j) ?_, hlive⟩
    rw [foldsOut, markActed, modifyPlayer, getElem?_modify_ne _ _ ?_]
    · exact hj
    rintro rfl
    obtain ⟨q, hq, hqid⟩ := findIdx?_key_eq_some hindex
    rw [hj] at hq
    cases hq
    exact hne hqid
  have hturn := ready_passTurn (t := t.foldsOut i peerId) hidx hremain
  refine liveAt_kickOut hturn fun heq => ?_
  obtain ⟨j, hj, p, hp, hlive⟩ := liveAt_iff.mp hturn
  obtain rfl : j = i := by omega
  have hinactive := t.inactive_foldsOut j peerId
  rw [hp, any_some] at hinactive
  rw [Player.live, hinactive] at hlive
  cases hlive

theorem filter_active_foldsOut (H : t.Seated) (h : t.playerIndex peerId = some i) :
    (t.foldsOut i peerId).activeInHand = t.activeInHand.filter (·.peerId ≠ peerId) := by
  rw [activeInHand, foldsOut, markActed, modifyPlayer, filter_modify_of_neg, eraseIdx_findIdx? H.ids h,
    filter_comm]
  · rfl
  · exact fun p => Bool.and_false _

/-- The invariant of the turn -/
structure OnTurn (t : Table) : Prop where
  settled : t.Settled
  indexed : t.Indexed
  ready : t.Ready

theorem OnTurn.ready_change (H : t.OnTurn) (hstays : t.staysOnTurn e = true)
    (h : Change t e r) : r.table.Ready := by
  cases h with
  | stays => exact H.ready
  | connects i connected => exact H.ready.modify i fun _ => rfl
  | @acts t' t'' p a i hconn hasks hp hlive hact =>
    have hbets := bets_act hact
    refine ready_tail ⟨?_, ?_⟩
    · rw [hbets.dealerIdx]
      rcases hconn with rfl | rfl
      · exact H.indexed.dealer
      · exact H.indexed.dealer
    rw [hbets.toActIdx]
    rcases hconn with rfl | rfl
    · exact H.indexed.toAct
    · exact H.indexed.toAct
  | starts he hrunning =>
    have h := starts_startHand hrunning
    generalize t.startHand = r at h
    cases h with
    | tooFew => exact ready_of_idle hrunning
    | shows => exact (ended_showdown _).ready
    | begins _ hover => exact ready_begun H.indexed hover
  | @seats t' peerId hid hseat he =>
    refine ready_seatPlayer H.settled H.ready hseat fun hrunning => ?_
    obtain ⟨rfl, rfl⟩ := he hrunning
    rw [staysOnTurn, hrunning, Bool.not_true, Bool.false_or, Bool.or_eq_true] at hstays
    rcases hstays with hany | hfits
    · obtain ⟨p, hp, heq⟩ := any_eq_true.mp hany
      exact absurd (mem_map.mpr ⟨p, hp, of_decide_eq_true heq⟩) hid
    · exact hfits
  | @leaves i peerId hindex hleaving hhand hrunning hturn =>
    cases haward : (t.foldsAway i peerId).awardUncontested with
    | some t' => exact (ended_awardUncontested haward).ready
    | none =>
      intro _
      have hconn := liveAt_modify (f := (·.setConnected false)) (H.ready hrunning) hturn
      exact liveAt_modify (t := t.modifyPlayer i (·.setConnected false)) (f := (·.fold)) hconn hturn
  | @takesOff i peerId hindex hleaving hhand =>
    refine ready_takeOff H.ready fun hrunning => ?_
    have hfits : t.leaverFits i = true := by
      unfold staysOnTurn at hstays
      rw [hrunning, Bool.not_true, Bool.false_or, hleaving] at hstays
      split at hstays
      · cases hleaving
      · cases hleaving
      · rename_i hsome
        cases hsome
        rwa [hindex, all_some] at hstays
      · rename_i hnone
        cases hnone
    rw [leaverFits, hhand hrunning, Bool.false_or, Bool.or_eq_true, decide_eq_true_eq] at hfits
    exact hfits
  | @kicksOut i peerId he hindex hactive =>
    intro hkicked
    have hrunning := running_of_kickOut hkicked
    refine liveAt_kickOut (H.ready hrunning) fun heq => ?_
    obtain ⟨j, hj, p, hp, hlive⟩ := liveAt_iff.mp (H.ready hrunning)
    obtain rfl : j = i := by omega
    have hactive := hactive hrunning
    rw [hp, any_some] at hactive
    rw [Player.live, hactive] at hlive
    cases hlive
  | @kicksAwarded t' i peerId he hindex hactive hrunning haward =>
    have hended := ended_awardUncontested haward
    refine ready_of_idle (running_lobbyIfEmpty ?_)
    exact (congrArg Stage.running hended.stage).trans rfl
  | @kicksPlayer i peerId he hindex hactive hrunning hmany hturn =>
    intro _
    have hother : t.toActIdx ≠ i := by
      intro heq
      obtain ⟨j, hj, p, hp, hlive⟩ := liveAt_iff.mp (H.ready hrunning)
      obtain rfl : j = i := by omega
      obtain ⟨q, hq, hqid⟩ := findIdx?_key_eq_some hindex
      refine hturn ?_
      rw [heq, player?, if_pos (Int.natCast_nonneg j), Int.toNat_natCast, hq, any_some]
      exact decide_eq_true hqid
    exact liveAt_kickOut (t := t.foldsOut i peerId) (liveAt_modify (H.ready hrunning) hother) hother
  | @kicksActor i peerId he hindex hactive hrunning hmany hturn =>
    refine ready_kickActor H.indexed.toAct hindex ?_
    subst he
    rw [staysOnTurn, hrunning, Bool.not_true, Bool.false_or] at hstays
    rw [kickFits, Bool.or_eq_true, Bool.or_eq_true] at hstays
    rcases hstays with (hnot | hlast) | hany
    · obtain ⟨p, hp, hid⟩ := (any_eq_true _ _).mp hturn
      simp_all
    · rw [filter_active_foldsOut H.settled.seated hindex] at hmany
      exact absurd (of_decide_eq_true hlast) hmany
    · obtain ⟨p, hp, hlive⟩ := any_eq_true.mp hany
      rw [Bool.and_eq_true, decide_eq_true_eq] at hlive
      exact ⟨p, hp, hlive⟩
  | sets patch => exact players_congr_ready H.ready rfl rfl rfl
  | addsChips peerId amount =>
    rw [Progress.table, addChips]
    split
    · exact H.ready
    rename_i i hi
    dsimp only
    split
    · exact H.ready
    · split
      · exact H.ready.modify i fun _ => rfl
      · exact H.ready.modify i fun _ => rfl
  | removesChips peerId amount =>
    rw [Progress.table, removeChips]
    split
    · exact H.ready
    rename_i i hi
    dsimp only
    split
    · exact H.ready
    · exact H.ready.modify i fun _ => rfl
  | invites peerId =>
    rw [Progress.table, invitePeer]
    split
    · exact H.ready
    · exact players_congr_ready H.ready rfl rfl rfl

theorem neg_one_le_dealerIdx (H : -1 ≤ t.dealerIdx) (h : Change t e r) :
    -1 ≤ r.table.dealerIdx := by
  have hkick : ∀ (t₀ : Table) (i : Nat), -1 ≤ t₀.dealerIdx → -1 ≤ (t₀.kickOut i).dealerIdx := by
    intro t₀ i h₀
    rw [kickOut, dealerIdx_lobbyIfEmpty]
    dsimp only
    split <;> split <;> omega
  cases h with
  | stays | connects | sets => exact H
  | @acts t' t'' p a i hconn hasks hp hlive hact =>
    rw [dealerIdx_tail, (bets_act hact).dealerIdx]
    rcases hconn with rfl | rfl
    · exact H
    · exact H
  | starts he hrunning =>
    have hbegun : -1 ≤ t.begun.dealerIdx := by
      refine le_of_le_of_eq ?_ t.dealerIdx_handed.symm
      exact neg_one_le_nextInHandIndex H
    have h := starts_startHand hrunning
    generalize t.startHand = r at h
    cases h with
    | tooFew => exact H
    | shows => exact hbegun.trans_eq (ended_showdown _).dealerIdx.symm
    | begins => exact hbegun
  | seats hid hseat =>
    obtain ⟨seat, -, -, -, rfl⟩ := seatPlayer_eq_some hseat
    exact H
  | @leaves i peerId =>
    cases haward : (t.foldsAway i peerId).awardUncontested with
    | some t' => exact H.trans_eq (ended_awardUncontested haward).dealerIdx.symm
    | none => exact H
  | takesOff =>
    rw [Progress.table, takeOff, dealerIdx_lobbyIfEmpty]
    dsimp only
    split <;> split <;> omega
  | kicksOut => exact hkick t _ H
  | kicksAwarded he hindex hactive hrunning haward =>
    have hdealer := (ended_awardUncontested haward).dealerIdx
    have h₀ := H.trans_eq hdealer.symm
    rw [Progress.table, kickOutAwarded, dealerIdx_lobbyIfEmpty]
    dsimp only
    split <;> split <;> omega
  | kicksPlayer | kicksActor => exact hkick _ _ H
  | addsChips peerId amount =>
    rw [Progress.table, addChips]
    split
    · exact H
    dsimp only
    split
    · exact H
    · split
      · exact H
      · exact H
  | removesChips peerId amount =>
    rw [Progress.table, removeChips]
    split
    · exact H
    dsimp only
    split
    · exact H
    · exact H
  | invites peerId =>
    rw [Progress.table, invitePeer]
    split
    · exact H
    · exact H

theorem OnTurn.step (H : t.OnTurn) (hstays : t.staysOnTurn e = true) (h : t.step e = some t') :
    t'.OnTurn := by
  obtain ⟨r, hr, rfl⟩ := step_change h
  have hset := H.settled.change hr
  have hready := H.ready_change hstays hr
  refine ⟨hset, ⟨neg_one_le_dealerIdx H.indexed.dealer hr, ?_⟩, hready⟩
  cases hrunning : r.table.stage.running with
  | true => exact neg_one_le_of_liveAt (hready hrunning)
  | false => rw [hset.turned.idle hrunning]

theorem Created.onTurn (h : t.Created) : t.OnTurn := by
  have hidle : t.stage.running = false := by
    rw [h.stage]
    rfl
  refine ⟨h.settled, ⟨?_, ?_⟩, ready_of_idle hidle⟩
  · obtain ⟨t₀, -, hstage, rfl, hdealer, -⟩ := h.cases
    have hchange : Change t₀ .addBot (.goes ((t₀.addPlayer t₀.selfId).getD t₀)) :=
      change_addPlayer fun hrunning => by
        rw [hstage] at hrunning
        cases hrunning
    exact neg_one_le_dealerIdx hdealer.ge hchange
  · rw [h.settled.turned.idle hidle]

theorem OnTurn.ready_applyAction (H : t.OnTurn)
    (h : t.applyAction peerId a = some r) : r.table.Ready := by
  have hchange : Change t (.message peerId t.tableId (.action a))
      ((t.applyAction peerId a).getD (.goes t)) := change_applyAction (if_pos rfl)
  rw [h] at hchange
  have hstays : t.staysOnTurn (.message peerId t.tableId (.action a)) = true := Bool.or_true _
  exact H.ready_change hstays hchange

/-- In every run in which nobody else comes to stand at the turn, a running hand waits for a player
who can act, and still does when that player has acted. -/
theorem ready_of_staysOnTurn (hcreated : t.Created)
    (h : Run step (fun t e => t.staysOnTurn e = true) t es t') :
    t'.Ready ∧ ∀ peerId a r, t'.applyAction peerId a = some r → r.table.Ready := by
  have H : t'.OnTurn :=
    h.invariant (I := OnTurn) (fun hstays H hstep => H.step hstays hstep) hcreated.onTurn
  exact ⟨H.ready, fun _ _ _ happly => H.ready_applyAction happly⟩

/-- The guest is to act. -/
theorem ready_twoBegin : ∃ t, exec step (openTable 2000) twoBegin = some t ∧ t.Ready ∧
    ∀ peerId a r, t.applyAction peerId a = some r → r.table.Ready := by
  have hexec : (exec step (openTable 2000) twoBegin).isSome = true := by decide +kernel
  obtain ⟨t, ht⟩ := isSome_iff_exists.mp hexec
  have hstays : allowed step staysOnTurn (openTable 2000) twoBegin = true := by decide +kernel
  exact ⟨t, ht, ready_of_staysOnTurn (created_openTable 2000) (.of_allowed hstays ht)⟩

/-- Two are all in, and the third is kicked. -/
def kickLast : List HostEvent :=
  [.message "guest" "table" .join, .message "other" "table" .join, .start, .ownAction .allIn,
    .message "guest" "table" (.action .allIn), .kick "other"]

/-- A hand with nobody to act is not finished. -/
theorem kickLast_stuck : ¬ ∀ t es t', t.Created → FreeRun step t es t' → t'.Ready := by
  intro h
  have hexec : ((exec step (openTable 2000) kickLast).any fun t =>
      t.stage.running && !t.liveAt t.toActIdx) = true := by
    decide +kernel
  obtain ⟨t, ht, hstuck⟩ := (any_eq_true _ _).mp hexec
  rw [Bool.and_eq_true, Bool.not_eq_true'] at hstuck
  have hready := h _ _ t (created_openTable 2000) (.of_exec ht) hstuck.1
  rw [hstuck.2] at hready
  cases hready

end Bluetalk.Poker.Table

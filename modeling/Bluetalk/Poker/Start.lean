import Bluetalk.Poker.Seats

/-!
# The start of a hand

Those with chips are dealt in, and stay in the hand whatever they have put in when the first of them
is to act (`active_begun`). With this, what holds of the table at all times is shown.
-/

open List

namespace Bluetalk.Poker

namespace Table

variable {t t' : Table} {i : Nat} {f : Player → Player} {peerId : String} {e : HostEvent}

/-- The new hand, before anyone puts in anything -/
def opened (t : Table) : Table :=
  { t.newHand with dealerIdx := t.newHand.nextInHandIndex t.newHand.dealerIdx }

/-- How many are dealt into the next hand -/
def count (t : Table) : Nat := (t.credited.players.filter (·.ready)).length

/-- The new hand with antes and blinds paid, and the position of the big blind -/
def staked (t : Table) : Table × Int := t.credited.opened.payAntes.postBlinds t.count

/-- The new hand with its cards dealt -/
def handed (t : Table) : Table := { t.staked.1.deal with stage := .preflop }

/-- The new hand when the first player is to act -/
def begun (t : Table) : Table :=
  { t.handed with
    toActIdx := t.handed.seekLive (t.count + 3)
      (if t.count = 2 then t.handed.dealerIdx else t.handed.nextLiveSeat t.staked.2) }

/-- Whether the hand is over as soon as it has begun, nobody being left to act -/
def overAtOnce (t : Table) : Prop :=
  t.begun.toActIdx < 0 ∨ (t.begun.player? t.begun.toActIdx).all (·.allIn) = true

/-- The three ways in which the start of a hand ends. -/
inductive Starts (t : Table) : Progress → Prop
  | tooFew (hcount : t.count < 2) : Starts t (.goes t.credited)
  | shows (hcount : 2 ≤ t.count) (hover : t.overAtOnce) : Starts t (.shows t.begun)
  | begins (hcount : 2 ≤ t.count) (hover : ¬t.overAtOnce) : Starts t (.goes t.begun)

theorem starts_startHand (hrunning : t.stage.running = false) : Starts t t.startHand := by
  rw [startHand, if_neg (by rw [hrunning]; decide)]
  change Starts t (if t.count < 2 then .goes t.credited
    else if t.begun.toActIdx < 0 ∨ (t.begun.player? t.begun.toActIdx).all (·.allIn) = true then
      .shows t.begun
    else .goes t.begun)
  by_cases hcount : t.count < 2
  · rw [if_pos hcount]
    exact .tooFew hcount
  rw [if_neg hcount]
  split
  · rename_i hover
    exact .shows (not_lt.mp hcount) hover
  · rename_i hover
    exact .begins (not_lt.mp hcount) hover

/-! ## What is put in -/

theorem dealt_payAnte (p : Player) (ante : Nat) : (p.payAnte ante).dealt = p.dealt := by
  rw [Player.payAnte]
  split
  · exact dealt_checkAllIn _
  · rfl

@[simp] theorem active_checkAllIn (p : Player) : p.checkAllIn.active = p.active := by
  rw [Player.checkAllIn]
  split <;> rfl

@[simp] theorem active_bet (p : Player) (pay : Chips) : (p.bet pay).active = p.active :=
  active_checkAllIn _

theorem active_payAnte (p : Player) (ante : Nat) : (p.payAnte ante).active = p.active := by
  rw [Player.payAnte]
  split
  · exact active_checkAllIn _
  · rfl

theorem bets_payAntes (t : Table) : Bets t t.payAntes := by
  rw [payAntes]
  split
  · refine ⟨?_, rfl, rfl, rfl, rfl, rfl, rfl⟩
    rw [map_map]
    exact map_congr_left fun p _ => dealt_payAnte p _
  · exact .refl t

theorem active_payAntes (t : Table) :
    t.payAntes.players.map (·.active) = t.players.map (·.active) := by
  rw [payAntes]
  split
  · rw [map_map]
    exact map_congr_left fun p _ => active_payAnte p _
  · rfl

theorem bets_postBlind (t : Table) (idx : Int) (blind : Nat) : Bets t (t.postBlind idx blind) := by
  rw [postBlind]
  split
  · exact .refl t
  rename_i p hp
  have h := bets_modifyPlayer (f := (·.bet (min (.amount blind) p.chips))) (dealt_bet · _) t
    idx.toNat
  exact ⟨h.dealt, rfl, rfl, rfl, rfl, rfl, rfl⟩

theorem active_postBlind (t : Table) (idx : Int) (blind : Nat) :
    (t.postBlind idx blind).players.map (·.active) = t.players.map (·.active) := by
  rw [postBlind]
  split
  · rfl
  · rename_i p hp
    exact map_modify_of_eq (f := (·.bet (min (.amount blind) p.chips))) (active_bet · _) _ _

theorem bets_postBlinds (t : Table) (count : Nat) : Bets t (t.postBlinds count).1 := by
  have h := (t.bets_postBlind (if count = 2 then t.dealerIdx else t.nextInHandIndex t.dealerIdx)
    t.cfg.smallBlind).trans (bets_postBlind _ (t.nextInHandIndex
      (if count = 2 then t.dealerIdx else t.nextInHandIndex t.dealerIdx)) t.cfg.bigBlind)
  exact ⟨h.dealt, h.stage, h.toActIdx, h.dealerIdx, h.deck, h.board, h.cfg⟩

theorem active_postBlinds (t : Table) (count : Nat) :
    (t.postBlinds count).1.players.map (·.active) = t.players.map (·.active) :=
  (active_postBlind _ _ _).trans (active_postBlind _ _ _)

/-! ## Who is in the hand -/

theorem map_dealHoles {α : Type*} {g : Player → α} (hg : ∀ p hole, g { p with hole } = g p)
    (players : List Player) (deck : List Card) :
    (dealHoles players deck).1.map g = players.map g := by
  induction players generalizing deck with
  | nil => rfl
  | cons p players ih =>
    rw [dealHoles]
    split
    · rw [map_cons, map_cons, ih, hg]
    · rw [map_cons, map_cons, ih]

theorem active_enterHand (p : Player) : p.enterHand.active = p.ready := by
  rw [Player.active, Player.enterHand]
  cases hready : p.ready with
  | false => rfl
  | true =>
    rw [Player.ready, Bool.and_eq_true] at hready
    cases hchips : p.chips with
    | nan =>
      rw [hchips] at hready
      cases hready.1
    | amount n =>
      rw [hchips, Chips.lt_amount, decide_eq_true_eq] at hready
      simpa using hready.1

theorem bets_staked (t : Table) : Bets t.credited.opened t.staked.1 :=
  (bets_payAntes _).trans (bets_postBlinds _ _)

theorem active_staked (t : Table) :
    t.staked.1.players.map (·.active) = t.credited.players.map (·.ready) := by
  rw [staked, active_postBlinds, active_payAntes, opened, newHand, map_map]
  exact map_congr_left fun p _ => active_enterHand p

theorem active_begun (t : Table) :
    t.begun.players.map (·.active) = t.credited.players.map (·.ready) :=
  (map_dealHoles (fun _ _ => rfl) _ _).trans t.active_staked

theorem length_active_begun (t : Table) : t.begun.activeInHand.length = t.count := by
  rw [length_activeInHand, active_begun, count, ← countP_eq_length_filter, List.count, countP_map]
  refine countP_congr fun p _ => ?_
  simp

theorem places_credited (t : Table) : t.credited.places = t.places := by
  rw [places, credited, map_map]
  refine map_congr_left fun p _ => ?_
  rw [Function.comp_apply, Player.creditPending]
  split <;> rfl

theorem places_begun (t : Table) : t.begun.places = t.places := by
  have hdeal : t.begun.places = t.staked.1.places := map_dealHoles (fun _ _ => rfl) _ _
  rw [hdeal, t.bets_staked.places, ← t.places_credited, opened, newHand, places, map_map]
  rfl

theorem cfg_begun (t : Table) : t.begun.cfg = t.cfg := t.bets_staked.cfg

theorem Settled.startHand (H : t.Settled) (hrunning : t.stage.running = false) :
    t.startHand.table.Settled := by
  have h := starts_startHand hrunning
  generalize t.startHand = r at h
  cases h with
  | tooFew =>
    exact ⟨H.seated.of_places t.places_credited rfl, .of_idle hrunning (H.turned.idle hrunning)⟩
  | shows =>
    have hended := ended_showdown t.begun
    exact ⟨H.seated.of_places (hended.places.trans t.places_begun)
      (hended.cfg.trans t.cfg_begun), hended.turned⟩
  | begins hcount =>
    refine ⟨H.seated.of_places t.places_begun t.cfg_begun, .of_running rfl ?_⟩
    rw [Progress.table, length_active_begun]
    exact hcount

/-! ## Every event -/

theorem Settled.modify (H : t.Settled) (i : Nat)
    (hplace : ∀ p, ((f p).peerId, (f p).seat) = (p.peerId, p.seat))
    (hactive : ∀ p, (f p).active = p.active) : (t.modifyPlayer i f).Settled :=
  ⟨H.seated.of_places (places_modifyPlayer hplace t i) rfl,
    H.turned.congr rfl rfl (map_modify_of_eq hactive _ _)⟩

theorem Settled.setConnected (H : t.Settled) (i : Nat) (connected : Bool) :
    (t.modifyPlayer i (·.setConnected connected)).Settled :=
  H.modify i (fun _ => rfl) fun _ => rfl

theorem Seated.tail (H : t.Seated) (hplaces : t'.places = t.places) (hcfg : t'.cfg = t.cfg)
    (hrunning : t'.stage.running = true) : t'.tail.table.Settled :=
  ⟨H.of_places (t'.places_tail.1.trans hplaces) (t'.places_tail.2.trans hcfg), turned_tail hrunning⟩

theorem running_lobbyIfEmpty (h : t.stage.running = false) :
    t.lobbyIfEmpty.stage.running = false := by
  rw [lobbyIfEmpty]
  split
  · rfl
  · exact h

theorem lobbyIfEmpty_eq (h : 2 ≤ t.activeInHand.length) : t.lobbyIfEmpty = t := by
  rw [lobbyIfEmpty, if_neg]
  intro hnil
  rw [activeInHand, hnil] at h
  cases h

theorem Turned.erase (H : t.Turned) (hplayers : t'.players = t.players.eraseIdx i)
    (hstage : t'.stage = t.stage) (hidle : t.toActIdx = -1 → t'.toActIdx = -1)
    (hactive : t.stage.running = true → t.players[i]?.any (·.active) = false) :
    t'.lobbyIfEmpty.Turned := by
  cases hrunning : t.stage.running with
  | false =>
    refine .of_idle (running_lobbyIfEmpty (hstage ▸ hrunning)) ?_
    rw [toActIdx_lobbyIfEmpty]
    exact hidle (H.idle hrunning)
  | true =>
    have hmany : 2 ≤ t'.activeInHand.length := by
      rw [activeInHand, hplayers, filter_eraseIdx_of_neg (hactive hrunning)]
      exact H.contested hrunning
    rw [lobbyIfEmpty_eq hmany]
    exact .of_running (hstage ▸ hrunning) hmany

theorem Settled.takeOff (H : t.Settled)
    (hhand : t.stage.running = true → t.players[i]?.any (·.inHand) = false) :
    (t.takeOff i).Settled where
  seated := by
    refine H.seated.of_sublist ?_ (cfg_lobbyIfEmpty _)
    rw [Table.takeOff, places_lobbyIfEmpty]
    exact (eraseIdx_sublist _ _).map _
  turned := by
    refine H.turned.erase rfl rfl id fun hrunning => ?_
    have hhand := hhand hrunning
    cases hp : t.players[i]? with
    | none => rfl
    | some p =>
      rw [hp, Option.any_some] at hhand
      rw [Option.any_some, Player.active, hhand, Bool.false_and]

theorem Seated.kickOut (H : t.Seated) (hplaces : t'.places = t.places) (hcfg : t'.cfg = t.cfg) :
    (t'.kickOut i).Seated := by
  refine (H.of_places hplaces hcfg).of_sublist ?_ (cfg_lobbyIfEmpty _)
  rw [Table.kickOut, places_lobbyIfEmpty]
  exact (eraseIdx_sublist _ _).map _

theorem Turned.kickOut (H : t.Turned)
    (hactive : t.stage.running = true → t.players[i]?.any (·.active) = false) :
    (t.kickOut i).Turned := by
  refine H.erase rfl rfl (fun hidle => ?_) hactive
  dsimp only
  rw [hidle, if_neg (by omega), if_neg (by omega)]

theorem turned_folds (H : t.Turned) (hrunning : t.stage.running = true)
    (hplayers : t'.players = t.players.modify i f) (hstage : t'.stage = t.stage)
    (hmany : t'.activeInHand.length ≠ 1) : t'.Turned := by
  refine .of_running (hstage ▸ hrunning) ?_
  have hle := length_filter_modify (·.active) f t.players i
  have := H.contested hrunning
  rw [← hplayers] at hle
  rw [activeInHand] at *
  omega

theorem places_foldsOut (t : Table) (i : Nat) (peerId : String) :
    (t.foldsOut i peerId).places = t.places :=
  places_modifyPlayer (f := (·.fold)) (fun _ => rfl) t i

theorem places_foldsAway (t : Table) (i : Nat) (peerId : String) :
    (t.foldsAway i peerId).places = t.places :=
  (places_modifyPlayer (f := (·.fold)) (fun _ => rfl) _ i).trans
    (places_modifyPlayer (f := (·.setConnected false)) (fun _ => rfl) t i)

theorem inactive_foldsOut (t : Table) (i : Nat) (peerId : String) :
    (t.foldsOut i peerId).players[i]?.any (·.active) = false := by
  rw [foldsOut, markActed, modifyPlayer, getElem?_modify_eq]
  cases t.players[i]? with
  | none => rfl
  | some p => exact Bool.and_false _

theorem Settled.change {r : Progress} (H : t.Settled) (h : Change t e r) : r.table.Settled := by
  cases h with
  | stays => exact H
  | connects i connected => exact H.setConnected i connected
  | @acts t' t'' p a i hconn hasks hp hlive hact =>
    have hbets := bets_act hact
    have hset : t'.Settled ∧ t'.toActIdx = t.toActIdx := by
      rcases hconn with rfl | rfl
      · exact ⟨H, rfl⟩
      · exact ⟨H.setConnected i false, rfl⟩
    obtain ⟨hset, hidx⟩ := hset
    rw [← hidx] at hp
    exact hset.seated.tail hbets.places hbets.cfg (hbets.stage ▸ hset.turned.running hp)
  | starts he hrunning => exact H.startHand hrunning
  | @seats t' peerId hid hseat he =>
    refine ⟨H.seated.seatPlayer hid hseat, ?_⟩
    obtain ⟨seat, -, -, -, rfl⟩ := seatPlayer_eq_some hseat
    refine ⟨H.turned.idle, fun hrunning => ?_⟩
    refine (H.turned.contested hrunning).trans_eq ?_
    have hperm := (bySeat_perm (t.players ++ [t.newPlayer peerId seat])).filter (·.active)
    rw [Progress.table, activeInHand, activeInHand, hperm.length_eq, filter_append,
      filter_cons_of_neg (by simp [newPlayer, Player.active]), filter_nil,
      append_nil]
  | @leaves i peerId hindex hleaving hhand hrunning hturn =>
    cases haward : (t.foldsAway i peerId).awardUncontested with
    | some t' =>
      have hended := ended_awardUncontested haward
      exact ⟨H.seated.of_places (hended.places.trans (t.places_foldsAway i peerId)) hended.cfg,
        hended.turned⟩
    | none =>
      refine ⟨H.seated.of_places (t.places_foldsAway i peerId) rfl, ?_⟩
      exact turned_folds (H.setConnected i false).turned hrunning rfl rfl
        (awardUncontested_eq_none.mp haward)
  | takesOff hindex hleaving hhand => exact H.takeOff hhand
  | kicksOut he hindex hactive => exact ⟨H.seated.kickOut rfl rfl, H.turned.kickOut hactive⟩
  | @kicksAwarded t' i peerId he hindex hactive hrunning haward =>
    have hended := ended_awardUncontested haward
    have hplaces := hended.places.trans (t.places_foldsOut i peerId)
    constructor
    · refine (H.seated.of_places hplaces hended.cfg).of_sublist ?_ (cfg_lobbyIfEmpty _)
      rw [Progress.table, kickOutAwarded, places_lobbyIfEmpty]
      exact (eraseIdx_sublist _ _).map _
    · refine hended.turned.erase rfl rfl id fun hrunning => ?_
      rw [hended.stage] at hrunning
      cases hrunning
  | @kicksPlayer i peerId he hindex hactive hrunning hmany hturn =>
    have hturned : (t.foldsOut i peerId).Turned := turned_folds H.turned hrunning rfl rfl hmany
    exact ⟨H.seated.kickOut (t.places_foldsOut i peerId) rfl,
      hturned.kickOut fun _ => t.inactive_foldsOut i peerId⟩
  | @kicksActor i peerId he hindex hactive hrunning hmany hturn =>
    have hturned : (t.foldsOut i peerId).passTurn.Turned :=
      turned_folds H.turned hrunning rfl rfl hmany
    exact ⟨H.seated.kickOut (t.places_foldsOut i peerId) rfl,
      hturned.kickOut fun _ => t.inactive_foldsOut i peerId⟩
  | sets patch =>
    exact ⟨⟨H.seated.ids, H.seated.sorted, H.seated.size, H.seated.seats,
      sane_sanitizeSettings patch t.cfg H.seated.occupiedSeats⟩, H.turned.congr rfl rfl rfl⟩
  | addsChips peerId amount =>
    rw [Progress.table, addChips]
    split
    · exact H
    rename_i i hi
    dsimp only
    split
    · exact H
    · split
      · exact H.modify i (fun _ => rfl) fun _ => rfl
      · exact H.modify i (fun _ => rfl) fun _ => rfl
  | removesChips peerId amount =>
    rw [Progress.table, removeChips]
    split
    · exact H
    rename_i i hi
    dsimp only
    split
    · exact H
    · exact H.modify i (fun _ => rfl) fun _ => rfl
  | invites peerId =>
    rw [Progress.table, invitePeer]
    split
    · exact H
    · exact ⟨H.seated.of_places rfl rfl, H.turned.congr rfl rfl rfl⟩

theorem Settled.step (H : t.Settled) (h : t.step e = some t') : t'.Settled := by
  obtain ⟨r, hr, rfl⟩ := step_change h
  exact H.change hr

/-! ## A table that is opened -/

theorem restorePlayers_spec (cfg : Settings) (present : String → Bool) (saved : List SavedPlayer) :
    ((restorePlayers cfg present saved).map (·.peerId)).Nodup ∧
      (restorePlayers cfg present saved).length ≤ saved.length ∧
      ∀ p ∈ restorePlayers cfg present saved, ∃ row ∈ saved, p = restorePlayer cfg present row := by
  rw [restorePlayers]
  -- Along the saved players: with those before them, what is there so far.
  induction saved using List.reverseRecOn with
  | nil => exact ⟨nodup_nil, le_rfl, fun p hp => absurd hp not_mem_nil⟩
  | append_singleton saved row ih =>
    obtain ⟨hnodup, hlength, hrow⟩ := ih
    rw [foldl_append, foldl_cons, foldl_nil]
    generalize saved.foldl _ _ = players at hnodup hlength hrow ⊢
    have hmem : ∀ p ∈ players, ∃ row' ∈ saved ++ [row], p = restorePlayer cfg present row' := by
      intro p hp
      obtain ⟨row', hrow', heq⟩ := hrow p hp
      exact ⟨row', mem_append_left _ hrow', heq⟩
    rw [length_append, length_singleton]
    split
    · exact ⟨hnodup, hlength.trans (Nat.le_succ _), hmem⟩
    rename_i hnew
    refine ⟨?_, ?_, ?_⟩
    · rw [map_append, nodup_append]
      refine ⟨hnodup, nodup_singleton _, fun a ha b hb hab => hnew ?_⟩
      obtain ⟨p, hp, rfl⟩ := mem_map.mp ha
      rw [map_singleton, mem_singleton] at hb
      exact any_eq_true.mpr ⟨p, hp, decide_eq_true (hab.trans hb)⟩
    · rw [length_append, length_singleton]
      exact Nat.succ_le_succ hlength
    · intro p hp
      rcases mem_append.mp hp with hp | hp
      · exact hmem p hp
      · exact ⟨row, mem_append_right _ mem_cons_self, mem_singleton.mp hp⟩

theorem minSeats_le {saved : List SavedPlayer} (h : ∀ row ∈ saved, row.seat < 9) :
    minSeats saved ≤ 9 := by
  refine foldl_max_le (by decide) fun n hn => ?_
  obtain ⟨row, hrow, rfl⟩ := mem_map.mp hn
  exact h row hrow

theorem Created.cases (h : t.Created) :
    ∃ t₀ : Table, t₀.Settled ∧ t₀.stage = .lobby ∧ t = (t₀.addPlayer t₀.selfId).getD t₀ ∧
      t₀.dealerIdx = -1 ∧ t₀.pot = .amount 0 ∧ t₀.currentBet = .amount 0 ∧ 0 ≤ t₀.minRaise ∧
      ∀ p ∈ t₀.players, ∃ (cfg : Settings) (present : String → Bool) (row : SavedPlayer),
        p = restorePlayer cfg present row := by
  obtain ⟨settings, selfId, tableId, fallback, saved, handNumber, invitedPeers, isPeer, random,
    cmpShort, hlength, hseats, rfl⟩ := h
  rw [createHost]
  have hcfg := sane_sanitizeSettings settings fallback (minSeats_le hseats)
  generalize sanitizeSettings settings fallback (minSeats saved) = cfg at hcfg ⊢
  obtain ⟨hnodup, hle, hrow⟩ := restorePlayers_spec cfg
    (fun peerId => peerId = selfId || peerId = botPeerId || isPeer peerId) saved
  have hperm := bySeat_perm (restorePlayers cfg
    (fun peerId => peerId = selfId || peerId = botPeerId || isPeer peerId) saved)
  refine ⟨_, ⟨⟨?_, ?_, ?_, ?_, hcfg⟩, .of_idle rfl rfl⟩, rfl, rfl, rfl, rfl, rfl, Int.natCast_nonneg _, ?_⟩
  · exact (hperm.map _).nodup_iff.mpr hnodup
  · exact pairwise_map.mpr (pairwise_insertionSort (fun p q : Player => p.seat ≤ q.seat) _)
  · rw [places, length_map, hperm.length_eq]
    exact hle.trans hlength
  · intro place hplace
    obtain ⟨p, hp, rfl⟩ := mem_map.mp hplace
    obtain ⟨row, hmem, rfl⟩ := hrow p (hperm.mem_iff.mp hp)
    exact (Nat.min_le_left _ _).trans_lt (hseats row hmem)
  · intro p hp
    obtain ⟨row, -, rfl⟩ := hrow p (hperm.mem_iff.mp hp)
    exact ⟨_, _, row, rfl⟩

theorem Created.settled (h : t.Created) : t.Settled := by
  obtain ⟨t₀, hset, hstage, rfl, -⟩ := h.cases
  have hchange : Change t₀ .addBot (.goes ((t₀.addPlayer t₀.selfId).getD t₀)) :=
    change_addPlayer fun hrunning => by
      rw [hstage] at hrunning
      cases hrunning
  exact hset.change hchange

theorem Created.stage (h : t.Created) : t.stage = .lobby := by
  obtain ⟨t₀, -, hstage, rfl, -⟩ := h.cases
  rw [addPlayer]
  split
  · exact hstage
  cases hseat : t₀.seatPlayer t₀.selfId with
  | none => exact hstage
  | some t' =>
    obtain ⟨seat, -, -, -, rfl⟩ := seatPlayer_eq_some hseat
    exact hstage

/-- A table that `host` opens for everyone -/
def openTable (startingChips : Nat) : Table :=
  createHost ⟨none, none, none, none, some (.finite startingChips), none, none, some "public"⟩
    "host" "table" defaultSettings [] 0 [] (fun _ => false) (fun _ => 0) fun _ _ => .eq

theorem created_openTable (startingChips : Nat) : (openTable startingChips).Created :=
  ⟨_, _, _, _, _, _, _, _, _, _, Nat.zero_le _, fun _ hrow => absurd hrow not_mem_nil, rfl⟩

/-- Nobody sits twice, at most nine players sit in order, and a hand has two that can win it. -/
theorem table_settled {es : List HostEvent} (h : t.Created) : Always step Settled t es :=
  Run.always (fun H h => H.step h) h.settled

/-- A hand of two, of whom the host has called -/
def twoBegin : List HostEvent :=
  [.message "guest" "table" .join, .start, .ownAction .call]

theorem table_settled_two : Always step Settled (openTable 2000) twoBegin :=
  table_settled (created_openTable 2000)

end Table
end Bluetalk.Poker

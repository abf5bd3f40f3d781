import Bluetalk.Uno.Penalties

/-!
# The obligation to call

Beside the table a monitor tells who is under the obligation: a player that went down to one card,
until it calls or another acts in the round. The table keeps the obligation in `pendingUnoPeer`, and
what an action does to it is compared here.
-/

open List Option

namespace Bluetalk.Uno

/-- Whether the action is one by which the player before loses its last chance to call -/
def Action.settles : Action → Bool
  | .play _ | .draw | .pass => true
  | _ => false

namespace Game

variable {s s' : Game} {i : Nat} {q : String} {owed : Option String}

/-- Only the one that may pass can be under the obligation. -/
def Free (s : Game) : Prop :=
  ∀ r, s.drewCanPass = some r → s.pendingUnoPeer = none ∨ s.pendingUnoPeer = some r

/-- How many cards `q` holds -/
def handSize (s : Game) (q : String) : Nat :=
  ((s.playerIndex q).bind fun i => s.players[i]?.map (·.hand.length)).getD 0

/-- Whom the table has under the obligation after an action of `q` -/
def unoAfter (s : Game) (q : String) : Action → Option String
  | .play cardId =>
    if s.handSize q = 2 ∧ (s.heldCard q cardId).all (·.color ≠ .wild) then some q else none
  | .draw => if s.pendingUnoPeer = some q then s.pendingUnoPeer else none
  | .pass => none
  | .callUno => forget q s.pendingUnoPeer
  | .chooseColor _ | .unknown => s.pendingUnoPeer

/-- What an action of `q` does to penalties and obligations -/
structure Acted (s : Game) (q : String) (a : Action) (s' : Game) : Prop where
  phase : s'.phase = .playing → s.phase = .playing
  seats : s'.seats = s.seats
  pays : Pays s (if a.settles then s.duePenalty s.pendingUnoPeer q else none) s'
  uno : s'.phase = .playing → s'.pendingUnoPeer = s.unoAfter q a
  silent : Silent s'
  free : Free s'

theorem Grows.silent (h : Grows s s') (hs : Silent s) : Silent s' := by
  intro x hx hpending
  obtain hsame | hnone := h.unoFree
  · exact hs x (h.calls ▸ hx) (hsame.symm.trans hpending)
  · cases hnone.symm.trans hpending

theorem Grows.free (h : Grows s s') (hs : Free s) : Free s' := by
  intro r hr
  obtain hsame | hnone := h.unoFree
  · obtain hpass | hpass := h.pass
    · rw [hsame]
      exact hs r (hpass.symm.trans hr)
    · cases hpass.symm.trans hr
  · exact .inl hnone

theorem silent_of_none (h : s.pendingUnoPeer = none) : Silent s :=
  fun _ _ hpending => by cases h.symm.trans hpending

theorem free_of_none (h : s.pendingUnoPeer = none) : Free s := fun _ _ => .inl h

/-! ## A card is played -/

theorem handSize_of_playerIndex {player : Player} (hi : s.playerIndex q = some i)
    (hplayer : s.players[i]? = some player) : s.handSize q = player.hand.length := by
  rw [handSize, hi, bind_some, hplayer]
  rfl

theorem calls_setSaidUno (hs : s.peerIds.Nodup) (hi : s.playerIndex q = some i) {x : String × Bool}
    (hx : x ∈ (s.modifyPlayer i (·.setSaidUno false)).calls) (hq : x.1 = q) : x.2 = false := by
  obtain ⟨p, hp, rfl⟩ := List.mem_map.mp hx
  obtain ⟨j, hj⟩ := mem_iff_getElem?.mp hp
  change (s.players.modify i _)[j]? = some p at hj
  rw [getElem?_modify] at hj
  obtain ⟨p', hp', rfl⟩ := map_eq_some_iff.mp hj
  split
  · rfl
  rename_i hij
  rw [if_neg hij] at hq
  obtain ⟨player, hplayer, hid⟩ := peerId_of_playerIndex hi
  have hlt := (List.getElem?_eq_some_iff.mp hplayer).1
  have hsame : s.peerIds[i]? = s.peerIds[j]? := by
    rw [peerIds, getElem?_map, getElem?_map, hplayer, hp', map_some, map_some, hid]
    exact congrArg some hq.symm
  rw [peerIds] at hs hsame
  exact absurd ((getElem?_inj (by rwa [length_map]) hs).mp hsame) hij

/-- A player left with one card is under the obligation. -/
def marked (s : Game) (i : Nat) (q : String) : Game :=
  (if (s.players[i]?.map (·.hand.length)).getD 0 = 1 then { s with pendingUnoPeer := some q }
    else s).modifyPlayer i (·.setSaidUno false)

theorem marked_spec (s : Game) (i : Nat) (q : String) :
    (s.marked i q).players = s.players.modify i (·.setSaidUno false) ∧
      (s.marked i q).penalties = s.penalties ∧ (s.marked i q).drewCanPass = s.drewCanPass ∧
      (s.marked i q).pendingUnoPeer =
        if (s.players[i]?.map (·.hand.length)).getD 0 = 1 then some q else s.pendingUnoPeer := by
  rw [marked]
  split
  · exact ⟨rfl, rfl, rfl, rfl⟩
  · exact ⟨rfl, rfl, rfl, rfl⟩

theorem grows_afterCardPlayed (s : Game) (i : Nat) (q : String) (card : Card) :
    Grows (s.marked i q) (s.afterCardPlayed i q card).1 := by
  rw [afterCardPlayed]
  split
  · exact grows_finishRound _ q
  · exact grows_resolveCard _ card

theorem duePenalty_ne {p : String} (h : s.duePenalty owed q = some p) :
    p ≠ q := by
  obtain ⟨-, hp⟩ := filter_eq_some_iff.mp h
  rw [Bool.and_eq_true, decide_eq_true_eq] at hp
  exact hp.1

theorem Pays.discard {t : Game} (h : Pays s (s.duePenalty owed q) t)
    (cardIdx : Nat) (card : Card) (hi : s.playerIndex q = some i) :
    Pays s (s.duePenalty owed q) (t.discard i q cardIdx card) where
  penalties := (penalties_emitEvent (by decide)).trans h.penalties
  draws p j player hdue hj hplayer := by
    obtain ⟨player', cards, hplayer', hlength, hprefix⟩ := h.draws p j player hdue hj hplayer
    refine ⟨player', cards, ?_, hlength, hprefix⟩
    change (t.players.modify i _)[j]? = _
    rw [getElem?_modify_ne]
    · exact hplayer'
    rintro rfl
    obtain ⟨_, hq, hid⟩ := peerId_of_playerIndex hi
    obtain ⟨_, hp, hid'⟩ := peerId_of_playerIndex hj
    rw [some.inj (hq.symm.trans hp)] at hid
    exact duePenalty_ne hdue (hid'.symm.trans hid)

theorem calls_discard (s : Game) (i : Nat) (q : String) (cardIdx : Nat) (card : Card) :
    (s.discard i q cardIdx card).calls = s.calls :=
  map_modify_of_eq (f := fun p : Player => p.lay cardIdx) (fun _ => rfl) _ _

theorem peerIds_of_calls (h : s'.calls = s.calls) : s'.peerIds = s.peerIds := by
  have hmap := congrArg (List.map Prod.fst) h
  rw [calls, calls, List.map_map, List.map_map] at hmap
  exact hmap

theorem playerIndex_congr (h : s'.peerIds = s.peerIds) (q : String) :
    s'.playerIndex q = s.playerIndex q := by
  have hindex : ∀ t : Game, t.playerIndex q = t.peerIds.findIdx? (· = q) := by
    intro t
    rw [playerIndex, peerIds, findIdx?_map]
    rfl
  rw [hindex, hindex, h]

theorem acted_play {cardId : Option String} (hs : s.peerIds.Nodup) (hsilent : Silent s)
    (h : s.playCard q cardId = some s') : Acted s q (.play cardId) s' := by
  obtain ⟨i, player, cardIdx, card, hmay, heq, hheld⟩ := heldCard_of_playCard h
  have hmoves := moves_play hmay
  rw [← heq] at hmoves
  obtain ⟨hpays, hcalls⟩ := pays_settleUno hsilent q
  have hdiscard := hpays.discard cardIdx card hmay.index
  have hplayer := (getElem?_settleUno hmay.index).trans hmay.seat
  have hcalls' := (calls_discard (s.settleUno q) i q cardIdx card).trans hcalls
  have hsize := handSize_of_playerIndex hmay.index hmay.seat
  have hidx : cardIdx < player.hand.length := (List.getElem?_eq_some_iff.mp hmay.held).1
  have hleft : ((Game.players { (s.settleUno q).discard i q cardIdx card with
      activeColor := some card.color })[i]?.map (·.hand.length)).getD 0 =
        player.hand.length - 1 := by
    change ((((s.settleUno q).players.modify i _)[i]?.map _).getD 0) = _
    rw [getElem?_modify_eq, hplayer]
    exact length_eraseIdx_of_lt hidx
  rw [play] at heq
  dsimp only at heq
  split at heq
  · rename_i hcolor
    have hlaid : Grows ((s.settleUno q).discard i q cardIdx card)
        { (s.settleUno q).discard i q cardIdx card with pendingColorChoice := some q } :=
      .of_players id rfl rfl rfl (.inl rfl)
    rw [← heq] at hlaid
    refine ⟨hmoves.phase, hmoves.seats, hdiscard.grows hlaid, fun _ => ?_, ?_, ?_⟩
    · rw [unoAfter, hheld, all_some, hcolor, if_neg (by simp), heq]
      rfl
    · exact hlaid.silent (silent_of_none rfl)
    · exact hlaid.free (free_of_none rfl)
  · rename_i hcolor
    have hpays' : Pays s (s.duePenalty s.pendingUnoPeer q)
        { (s.settleUno q).discard i q cardIdx card with activeColor := some card.color } :=
      hdiscard.grows (.of_players id rfl rfl rfl (.inl rfl))
    have hpeerIds : Game.peerIds { (s.settleUno q).discard i q cardIdx card with
        activeColor := some card.color } = s.peerIds := peerIds_of_calls hcalls'
    have hnopass : Game.drewCanPass { (s.settleUno q).discard i q cardIdx card with
        activeColor := some card.color } = none := rfl
    have hnone : Game.pendingUnoPeer { (s.settleUno q).discard i q cardIdx card with
        activeColor := some card.color } = none := rfl
    generalize ({ (s.settleUno q).discard i q cardIdx card with
      activeColor := some card.color } : Game) = d at heq hpays' hpeerIds hleft hnopass hnone
    obtain ⟨hplayers, hpenalties, hpass, huno⟩ := marked_spec d i q
    have hafter : Grows (d.marked i q) s' := by
      have hgrows := grows_afterCardPlayed d i q card
      rw [heq]
      split
      · exact hgrows
      · exact hgrows.trans (grows_scheduleTurnTimer _)
    rw [hleft, hnone] at huno
    refine ⟨hmoves.phase, hmoves.seats, (hpays'.mono hpenalties ?_).grows hafter, fun hphase => ?_,
      hafter.silent ?_, hafter.free ?_⟩
    · intro j p hp
      rw [hplayers, getElem?_modify, hp]
      split
      · exact ⟨p.setSaidUno false, rfl, prefix_rfl⟩
      · exact ⟨p, rfl, prefix_rfl⟩
    · rw [hafter.uno hphase, unoAfter, hheld, all_some, hsize, huno]
      refine if_congr ⟨fun hone => ⟨?_, decide_eq_true hcolor⟩, fun htwo => ?_⟩ rfl rfl
      · omega
      · omega
    · intro x hx hwho
      have hx' : x ∈ (d.modifyPlayer i (·.setSaidUno false)).calls := by
        rw [calls, hplayers] at hx
        exact hx
      rw [huno] at hwho
      split at hwho
      · refine calls_setSaidUno (hpeerIds ▸ hs) ?_ hx' (some.inj hwho).symm
        rw [playerIndex_congr hpeerIds]
        exact hmay.index
      · cases hwho
    · intro r hr
      cases (hpass.trans hnopass).symm.trans hr

/-! ## The other actions -/

theorem Grows.withPass (h : Grows s s') (pass : Option String) :
    Grows { s with drewCanPass := pass } { s' with drewCanPass := pass } :=
  ⟨h.phase, h.penalties, h.calls, h.uno, h.unoFree, .inl rfl, h.hand⟩

theorem grows_drawOne (s : Game) (i : Nat) (q : String) :
    Grows s (s.drawOne i q) ∨ Grows { s with drewCanPass := some q } (s.drawOne i q) := by
  have hdraw := grows_drawCardsFor s i 1
  have hpassed : Grows s ({ (s.drawCardsFor i 1).1 with drewCanPass := none }.passTo
      ((s.drawCardsFor i 1).1.nextIndex (s.drawCardsFor i 1).1.toActIdx 1)).scheduleTurnTimer :=
    hdraw.trans (.of_players id rfl rfl rfl (.inr rfl))
  rw [drawOne]
  split
  · exact .inl hpassed
  · split
    · exact .inr ((hdraw.withPass (some q)).trans (grows_emitEvent (by decide)))
    · exact .inl (hpassed.trans (grows_emitEvent (by decide)))

theorem settled_spec (hs : Silent s) :
    Pays s (s.duePenalty s.pendingUnoPeer q) (s.settled q) ∧ (s.settled q).calls = s.calls ∧
      (s.settled q).pendingUnoPeer =
        (if s.pendingUnoPeer = some q then s.pendingUnoPeer else none) := by
  obtain ⟨hpays, hcalls⟩ := pays_settleUno hs q
  rw [settled]
  split
  · exact ⟨hpays, hcalls, (frame_settleUno s q).uno⟩
  · exact ⟨⟨hpays.penalties, hpays.draws⟩, hcalls, rfl⟩

theorem acted_draw (hsilent : Silent s) (hfree : Free s) (h : s.drawCard q = some s') :
    Acted s q .draw s' := by
  have hmoves := moves_applyAction (a := .draw) h
  obtain ⟨i, hturn, heq⟩ := drawCard_some h
  obtain ⟨hpays, hcalls, huno⟩ := settled_spec (q := q) hsilent
  have hpass : (s.settled q).drewCanPass = s.drewCanPass := (frame_settled s q).pass
  have hsilent' : Silent (s.settled q) := by
    intro x hx hwho
    rw [huno] at hwho
    split at hwho
    · exact hsilent x (hcalls ▸ hx) hwho
    · cases hwho
  have hfree' : Free (s.settled q) := by
    intro r hr
    rw [huno]
    split
    · exact hfree r (hpass.symm.trans hr)
    · exact .inl rfl
  have hgrows : Grows (s.settled q) s' ∨
      Grows { s.settled q with drewCanPass := some q } s' := by
    rw [heq]
    split
    · exact .inl (grows_forceDrawStack _ q)
    · exact grows_drawOne _ i q
  obtain hgrows | hgrows := hgrows
  · exact ⟨hmoves.phase, hmoves.seats, hpays.grows hgrows,
      fun hphase => (hgrows.uno hphase).trans huno, hgrows.silent hsilent', hgrows.free hfree'⟩
  have hpays' : Pays s (s.duePenalty s.pendingUnoPeer q)
      { s.settled q with drewCanPass := some q } := ⟨hpays.penalties, hpays.draws⟩
  refine ⟨hmoves.phase, hmoves.seats, hpays'.grows hgrows,
    fun hphase => (hgrows.uno hphase).trans huno, hgrows.silent hsilent', hgrows.free ?_⟩
  intro r hr
  cases hr
  rw [huno]
  split
  · rename_i hown
    exact .inr hown
  · exact .inl rfl

theorem acted_pass (hsilent : Silent s) (h : s.passTurn q = some s') : Acted s q .pass s' := by
  have hmoves := moves_applyAction (a := .pass) h
  obtain ⟨-, rfl⟩ := passTurn_some h
  obtain ⟨hpays, -⟩ := pays_settleUno (s := { s with drewCanPass := none }) hsilent q
  exact ⟨hmoves.phase, hmoves.seats, ⟨hpays.penalties, hpays.draws⟩, fun _ => rfl,
    silent_of_none rfl, free_of_none rfl⟩

theorem acted_callUno (hsilent : Silent s) (hfree : Free s) (h : s.callUno q = some s') :
    Acted s q .callUno s' := by
  have hmoves := moves_applyAction (a := .callUno) h
  obtain ⟨i, hi, -, rfl⟩ := callUno_some h
  have huno : (s.called i q).pendingUnoPeer = forget q s.pendingUnoPeer := by
    rw [called, forget]
    split <;> rfl
  have hplayers : (s.called i q).players = s.players.modify i (·.setSaidUno true) := by
    rw [called]
    split <;> rfl
  have hpass : (s.called i q).drewCanPass = s.drewCanPass := by
    rw [called]
    split <;> rfl
  have hpenalties : (s.called i q).penalties = s.penalties := by
    rw [called]
    split <;> rfl
  refine ⟨hmoves.phase, hmoves.seats, (Grows.refl s).pays.mono hpenalties fun j p hp => ?_,
    fun _ => huno, fun x hx hwho => ?_, fun r hr => ?_⟩
  · rw [hplayers, getElem?_modify, hp]
    split
    · exact ⟨p.setSaidUno true, rfl, prefix_rfl⟩
    · exact ⟨p, rfl, prefix_rfl⟩
  · -- Who has just called is no longer under the obligation.
    obtain ⟨hwho, hne⟩ := forget_eq_some (huno.symm.trans hwho)
    rw [calls, hplayers] at hx
    obtain ⟨p, hp, rfl⟩ := mem_map.mp hx
    obtain ⟨j, hj⟩ := mem_iff_getElem?.mp hp
    rw [getElem?_modify] at hj
    obtain ⟨p', hp', rfl⟩ := map_eq_some_iff.mp hj
    split at hne
    · rename_i hij
      rw [hij] at hi
      obtain ⟨player, hplayer, hid⟩ := peerId_of_playerIndex hi
      rw [some.inj (hp'.symm.trans hplayer)] at hne
      exact absurd hid hne
    · rename_i hij
      rw [if_neg hij] at hwho ⊢
      exact hsilent _ (mem_calls hp') hwho
  · rw [huno]
    obtain hnone | hsome := hfree r (hpass.symm.trans hr)
    · rw [hnone]
      exact .inl rfl
    rw [hsome, forget]
    split
    · exact .inl rfl
    · exact .inr rfl

theorem acted_applyAction {a : Action} (hs : s.peerIds.Nodup) (hsilent : Silent s) (hfree : Free s)
    (h : s.applyAction q a = some s') : Acted s q a s' := by
  cases a with
  | play cardId => exact acted_play hs hsilent h
  | chooseColor color =>
    have hmoves := moves_applyAction h
    obtain ⟨-, color, rfl⟩ := chooseColor_some h
    have hgrows := grows_setColor s q color
    exact ⟨hmoves.phase, hmoves.seats, hgrows.pays, hgrows.uno, hgrows.silent hsilent,
      hgrows.free hfree⟩
  | draw => exact acted_draw hsilent hfree h
  | pass => exact acted_pass hsilent h
  | callUno => exact acted_callUno hsilent hfree h
  | unknown => cases h

end Game
end Bluetalk.Uno

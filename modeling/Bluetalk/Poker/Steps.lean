import Bluetalk.Poker.Host

/-!
# What an event may do to the table

Every event comes down to one of a few changes (`Change`), and the end of an action to one of five
(`tail_cases`). The rest of the development reasons about these.
-/

open Option

namespace Bluetalk.Poker

/-- What betting leaves as it is of a player -/
def Player.dealt (p : Player) : String × Nat × Bool × List Card :=
  (p.peerId, p.seat, p.inHand, p.hole)

namespace Table

variable {t t' t'' : Table} {i : Nat} {peerId : String} {p : Player} {a : Action} {r : Progress}

/-- `t'` is `t` but for the betting. -/
structure Bets (t t' : Table) : Prop where
  dealt : t'.players.map Player.dealt = t.players.map Player.dealt
  stage : t'.stage = t.stage
  toActIdx : t'.toActIdx = t.toActIdx
  dealerIdx : t'.dealerIdx = t.dealerIdx
  deck : t'.deck = t.deck
  board : t'.board = t.board
  cfg : t'.cfg = t.cfg

namespace Bets

theorem refl (t : Table) : Bets t t := ⟨rfl, rfl, rfl, rfl, rfl, rfl, rfl⟩

theorem trans (h : Bets t t') (h' : Bets t' t'') : Bets t t'' where
  dealt := h'.dealt.trans h.dealt
  stage := h'.stage.trans h.stage
  toActIdx := h'.toActIdx.trans h.toActIdx
  dealerIdx := h'.dealerIdx.trans h.dealerIdx
  deck := h'.deck.trans h.deck
  board := h'.board.trans h.board
  cfg := h'.cfg.trans h.cfg

end Bets

@[simp] theorem dealt_fold (p : Player) : p.fold.dealt = p.dealt := rfl

@[simp] theorem dealt_goAllIn (p : Player) : p.goAllIn.dealt = p.dealt := rfl

@[simp] theorem dealt_checkAllIn (p : Player) : p.checkAllIn.dealt = p.dealt := by
  rw [Player.checkAllIn]
  split <;> rfl

@[simp] theorem dealt_bet (p : Player) (pay : Chips) : (p.bet pay).dealt = p.dealt :=
  dealt_checkAllIn _

theorem bets_modifyPlayer {f : Player → Player} (hf : ∀ p, (f p).dealt = p.dealt) (t : Table)
    (i : Nat) : Bets t (t.modifyPlayer i f) where
  dealt := map_modify_of_eq hf _ _
  stage := rfl
  toActIdx := rfl
  dealerIdx := rfl
  deck := rfl
  board := rfl
  cfg := rfl

theorem bets_markActed (t : Table) (peerId : String) : Bets t (t.markActed peerId) :=
  ⟨rfl, rfl, rfl, rfl, rfl, rfl, rfl⟩

theorem bets_bet (t : Table) (pay : Chips) : Bets t (t.bet pay) :=
  let h := bets_modifyPlayer (f := (·.bet pay)) (dealt_bet · pay) t t.toActIdx.toNat
  ⟨h.dealt, rfl, rfl, rfl, rfl, rfl, rfl⟩

theorem bets_raised (t : Table) (peerId : String) (maxBet newBet : Chips) :
    Bets t (t.raised peerId maxBet newBet) := by
  rw [raised]
  split
  · split
    · exact ⟨rfl, rfl, rfl, rfl, rfl, rfl, rfl⟩
    · exact ⟨rfl, rfl, rfl, rfl, rfl, rfl, rfl⟩
  · exact ⟨rfl, rfl, rfl, rfl, rfl, rfl, rfl⟩

theorem bets_act (h : t.act p a = some t') : Bets t t' := by
  cases a with
  | fold =>
    cases h
    exact (bets_modifyPlayer dealt_fold t _).trans (bets_markActed _ _)
  | check =>
    rw [act] at h
    split at h
    · cases h
      exact bets_markActed t _
    · cases h
  | call =>
    cases h
    exact (bets_bet t _).trans (bets_markActed _ _)
  | raise raiseTo amount =>
    rw [act] at h
    split at h
    · cases h
    · cases h
      exact (bets_bet t _).trans (bets_raised _ _ _ _)
  | allIn =>
    cases h
    have hall := bets_modifyPlayer dealt_goAllIn t t.toActIdx.toNat
    have hall : Bets t { t.modifyPlayer t.toActIdx.toNat (·.goAllIn) with pot := t.pot + p.chips } :=
      ⟨hall.dealt, rfl, rfl, rfl, rfl, rfl, rfl⟩
    exact hall.trans (bets_raised _ _ _ _)
  | unknown =>
    cases h
    exact .refl t

/-- The five ways in which an action ends. -/
inductive Tails (t : Table) : Progress → Prop
  | awards {t' : Table} (h : t.awardUncontested = some t') : Tails t (.goes t')
  | runsOut (hmany : t.activeInHand.length ≠ 1)
      (hlive : t.activeInHand.any (!·.allIn) = false) : Tails t (.shows t.runoutBoard)
  | shows (hmany : t.activeInHand.length ≠ 1) (hlive : t.activeInHand.any (!·.allIn) = true)
      (hriver : t.stage = .river) : Tails t (.shows t)
  | advances (hmany : t.activeInHand.length ≠ 1)
      (hlive : t.activeInHand.any (!·.allIn) = true) (hriver : t.stage ≠ .river) :
      Tails t (.goes t.advanceStreet)
  | passes (hmany : t.activeInHand.length ≠ 1) (hlive : t.activeInHand.any (!·.allIn) = true) :
      Tails t (.goes t.passTurn)

theorem awardUncontested_eq_none : t.awardUncontested = none ↔ t.activeInHand.length ≠ 1 := by
  rw [awardUncontested]
  split
  · rename_i h
    exact ⟨fun hnone => (by cases hnone), fun hne => absurd h hne⟩
  · rename_i h
    exact ⟨fun _ => h, fun _ => rfl⟩

theorem tails_tail (t : Table) : Tails t t.tail := by
  rw [tail]
  cases haward : t.awardUncontested with
  | some t' => exact .awards haward
  | none =>
    have hmany := awardUncontested_eq_none.mp haward
    dsimp only
    by_cases hcomplete : t.bettingComplete = true
    · rw [if_pos hcomplete]
      cases hlive : t.activeInHand.any (!·.allIn) with
      | false => exact .runsOut hmany hlive
      | true =>
        rw [if_neg (by decide)]
        split
        · rename_i hriver
          exact .shows hmany hlive hriver
        · rename_i hriver
          exact .advances hmany hlive hriver
    · rw [if_neg hcomplete]
      refine .passes hmany ?_
      -- Where nobody can act the betting is complete.
      by_contra hnone
      refine hcomplete ?_
      rw [bettingComplete, List.filter_eq_nil_iff.mpr]
      · rfl
      · intro p hp hlive
        exact hnone (List.any_eq_true.mpr ⟨p, hp, hlive⟩)

/-- The action that an event asks to be taken, and of whom -/
def asks (t : Table) : HostEvent → Option (String × Action)
  | .message fromId tableId (.action a) => if tableId = t.tableId then some (fromId, a) else none
  | .message fromId tableId .leave => if tableId = t.tableId then some (fromId, .fold) else none
  | .disconnected peerId => some (peerId, .fold)
  | .removeBot => some (botPeerId, .fold)
  | .ownAction a => some (t.selfId, a)
  | .turnTimer peerId => some (peerId, .fold)
  | .botTurn first second =>
    (t.player? t.toActIdx).map fun p => (botPeerId, t.botAction p first second)
  | _ => none

/-- Who leaves the table, as an event tells -/
def leaving (t : Table) : HostEvent → Option String
  | .message fromId tableId .leave => if tableId = t.tableId then some fromId else none
  | .disconnected peerId => some peerId
  | .removeBot => some botPeerId
  | _ => none

/-- A player in the hand who is not to act leaves it. -/
def foldsAway (t : Table) (i : Nat) (peerId : String) : Table :=
  ((t.modifyPlayer i (·.setConnected false)).modifyPlayer i (·.fold)).markActed peerId

/-- A player who can still win the hand is kicked. -/
def foldsOut (t : Table) (i : Nat) (peerId : String) : Table :=
  (t.modifyPlayer i (·.fold)).markActed peerId

/-- What an event may change. -/
inductive Change (t : Table) (e : HostEvent) : Progress → Prop
  | stays : Change t e (.goes t)
  | connects (i : Nat) (connected : Bool) :
      Change t e (.goes (t.modifyPlayer i (·.setConnected connected)))
  | acts {t' t'' : Table} {p : Player} {a : Action} (i : Nat)
      (hconn : t' = t ∨ t' = t.modifyPlayer i (·.setConnected false))
      (hasks : t.asks e = some (p.peerId, a)) (hp : t'.player? t.toActIdx = some p)
      (hlive : p.live = true) (hact : t'.act p a = some t'') : Change t e t''.tail
  | starts (he : e = .start) (hrunning : t.stage.running = false) : Change t e t.startHand
  | seats {t' : Table} {peerId : String} (hid : peerId ∉ t.players.map (·.peerId)) 
      (hseat : t.seatPlayer peerId = some t')
      (he : t.stage.running = true → e = .addBot ∧ peerId = botPeerId) : Change t e (.goes t')
  | leaves {i : Nat} {peerId : String} (hindex : t.playerIndex peerId = some i)
      (hleaving : t.leaving e = some peerId)
      (hhand : t.players[i]?.any (·.inHand) = true) (hrunning : t.stage.running = true)
      (hturn : t.toActIdx ≠ i) :
      Change t e (.goes ((t.foldsAway i peerId).awardUncontested.getD (t.foldsAway i peerId)))
  | takesOff {i : Nat} {peerId : String} (hindex : t.playerIndex peerId = some i)
      (hleaving : t.leaving e = some peerId)
      (hhand : t.stage.running = true → t.players[i]?.any (·.inHand) = false) :
      Change t e (.goes (t.takeOff i))
  | kicksOut {i : Nat} {peerId : String} (he : e = .kick peerId)
      (hindex : t.playerIndex peerId = some i)
      (hactive : t.stage.running = true → t.players[i]?.any (·.active) = false) :
      Change t e (.goes (t.kickOut i))
  | kicksAwarded {t' : Table} {i : Nat} {peerId : String} (he : e = .kick peerId)
      (hindex : t.playerIndex peerId = some i)
      (hactive : t.players[i]?.any (·.active) = true) (hrunning : t.stage.running = true)
      (haward : (t.foldsOut i peerId).awardUncontested = some t') :
      Change t e (.goes (t'.kickOutAwarded i))
  | kicksPlayer {i : Nat} {peerId : String} (he : e = .kick peerId)
      (hindex : t.playerIndex peerId = some i)
      (hactive : t.players[i]?.any (·.active) = true) (hrunning : t.stage.running = true)
      (hmany : (t.foldsOut i peerId).activeInHand.length ≠ 1)
      (hturn : ¬(t.player? t.toActIdx).any (·.peerId = peerId) = true) :
      Change t e (.goes ((t.foldsOut i peerId).kickOut i))
  | kicksActor {i : Nat} {peerId : String} (he : e = .kick peerId)
      (hindex : t.playerIndex peerId = some i)
      (hactive : t.players[i]?.any (·.active) = true) (hrunning : t.stage.running = true)
      (hmany : (t.foldsOut i peerId).activeInHand.length ≠ 1)
      (hturn : (t.player? t.toActIdx).any (·.peerId = peerId) = true) :
      Change t e (.goes ((t.foldsOut i peerId).passTurn.kickOut i))
  | sets (patch : SettingsInput) : Change t e (.goes (t.updateSettings patch))
  | addsChips (peerId : String) (amount : Number) : Change t e (.goes (t.addChips peerId amount))
  | removesChips (peerId : String) (amount : Number) :
      Change t e (.goes (t.removeChips peerId amount))
  | invites (peerId : String) : Change t e (.goes (t.invitePeer peerId))

theorem applyAction_eq_some (h : t.applyAction peerId a = some r) :
    ∃ p t', t.player? t.toActIdx = some p ∧ p.peerId = peerId ∧ p.live = true ∧
      t.act p a = some t' ∧ r = t'.tail := by
  rw [applyAction, bind_eq_bind, bind_eq_some_iff] at h
  obtain ⟨p, hp, h⟩ := h
  rw [bind_eq_bind, bind_eq_some_iff] at h
  obtain ⟨_, hguard, h⟩ := h
  rw [guard_eq_some'] at hguard
  obtain ⟨hid, hlive⟩ := hguard
  obtain ⟨t', ht', rfl⟩ := map_eq_some_iff.mp h
  exact ⟨p, t', hp, hid, hlive, ht', rfl⟩

variable {e : HostEvent}

theorem change_applyAction (hasks : t.asks e = some (peerId, a)) :
    Change t e ((t.applyAction peerId a).getD (.goes t)) := by
  cases happly : t.applyAction peerId a with
  | none => exact .stays
  | some r =>
    obtain ⟨p, t', hp, rfl, hlive, hact, rfl⟩ := applyAction_eq_some happly
    exact .acts 0 (.inl rfl) hasks hp hlive hact

theorem change_removePlayer (hasks : t.asks e = some (peerId, .fold))
    (hleaving : t.leaving e = some peerId) : Change t e (t.removePlayer peerId) := by
  rw [removePlayer]
  cases hindex : t.playerIndex peerId with
  | none => exact .stays
  | some i =>
    dsimp only
    by_cases hhand : (t.players[i]?.any (·.inHand) && t.stage.running) = true
    · rw [if_pos hhand]
      obtain ⟨hhand, hrunning⟩ := Bool.and_eq_true_iff.mp hhand
      split
      · cases happly : (t.modifyPlayer i (·.setConnected false)).applyAction peerId .fold with
        | none => exact .connects i false
        | some r =>
          obtain ⟨p, t', hp, rfl, hlive, hact, rfl⟩ := applyAction_eq_some happly
          exact .acts i (.inr rfl) hasks hp hlive hact
      · rename_i hturn
        exact .leaves hindex hleaving hhand hrunning hturn
    · rw [if_neg hhand]
      refine .takesOff hindex hleaving fun hrunning => ?_
      rwa [hrunning, Bool.and_true, Bool.not_eq_true] at hhand

theorem change_addPlayer (he : t.stage.running = true → e = .addBot ∧ peerId = botPeerId) :
    Change t e (.goes ((t.addPlayer peerId).getD t)) := by
  rw [addPlayer]
  cases hindex : t.playerIndex peerId with
  | some i => exact .connects i true
  | none =>
    cases hseat : t.seatPlayer peerId with
    | none => exact .stays
    | some t' => exact .seats (findIdx?_key_eq_none.mp hindex) hseat he

theorem change_kickPlayer (t : Table) (peerId : String) :
    Change t (.kick peerId) (.goes (t.kickPlayer peerId)) := by
  rw [kickPlayer]
  split
  · exact .stays
  cases hindex : t.playerIndex peerId with
  | none => exact .stays
  | some i =>
    dsimp only
    by_cases hactive : (t.players[i]?.any (·.active) && t.stage.running) = true
    · rw [if_pos hactive]
      obtain ⟨hactive, hrunning⟩ := Bool.and_eq_true_iff.mp hactive
      cases haward : (t.foldsOut i peerId).awardUncontested with
      | some t' =>
        rw [foldsOut] at haward
        rw [haward]
        exact .kicksAwarded rfl hindex hactive hrunning haward
      | none =>
        have hmany := awardUncontested_eq_none.mp haward
        rw [foldsOut] at haward
        rw [haward]
        dsimp only
        split
        · rename_i hturn
          exact .kicksActor rfl hindex hactive hrunning hmany hturn
        · rename_i hturn
          exact .kicksPlayer rfl hindex hactive hrunning hmany hturn
    · rw [if_neg hactive]
      refine .kicksOut rfl hindex fun hrunning => ?_
      rwa [hrunning, Bool.and_true, Bool.not_eq_true] at hactive

theorem takes_change (h : t.takes e = some r) : Change t e r := by
  cases e with
  | message fromId tableId wire =>
    rw [takes] at h
    split at h
    · cases h
    cases h
    split
    · rename_i htable
      cases wire with
      | join =>
        rw [onWire]
        split
        · rename_i hjoin
          refine change_addPlayer fun hrunning => ?_
          rw [joinable, hrunning, Bool.not_true, Bool.and_false, Bool.false_and] at hjoin
          cases hjoin
        · exact .stays
      | leave => exact change_removePlayer (if_pos htable) (if_pos htable)
      | action a => exact change_applyAction (if_pos htable)
      | unknown => exact .stays
    · exact .stays
  | disconnected peerId | removeBot =>
    cases h
    exact change_removePlayer rfl rfl
  | ownAction a =>
    cases h
    exact change_applyAction rfl
  | turnTimer peerId =>
    rw [takes] at h
    split at h
    · cases h
      exact change_applyAction rfl
    · cases h
  | botTurn first second =>
    cases h
    rw [botTurn]
    cases hp : t.player? t.toActIdx with
    | none => exact .stays
    | some p =>
      dsimp only
      split
      · refine change_applyAction ?_
        rw [asks, hp]
        rfl
      · exact .stays
  | start =>
    cases h
    cases hrunning : t.stage.running with
    | true =>
      rw [startHand, if_pos hrunning]
      exact .stays
    | false => exact .starts rfl hrunning
  | addBot =>
    cases h
    rw [addDebugBot]
    split
    · exact .stays
    · exact change_addPlayer fun _ => ⟨rfl, rfl⟩
  | settings patch =>
    cases h
    exact .sets patch
  | addChips peerId amount =>
    cases h
    exact .addsChips peerId amount
  | removeChips peerId amount =>
    cases h
    exact .removesChips peerId amount
  | invite peerId =>
    cases h
    exact .invites peerId
  | kick peerId =>
    cases h
    exact change_kickPlayer t peerId

theorem step_change (h : t.step e = some t') : ∃ r, Change t e r ∧ r.table = t' := by
  obtain ⟨r, hr, rfl⟩ := map_eq_some_iff.mp h
  exact ⟨r, takes_change hr, rfl⟩

end Table
end Bluetalk.Poker

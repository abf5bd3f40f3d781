import Bluetalk.Uno.Seats

/-!
# Penalties

A penalty is told only where the obligation of another player is settled before an action. What
follows the settling tells none, calls for nobody, and adds to the hands of those who do not act.
-/

open List

namespace Bluetalk.Uno.Game

variable {s s' s'' : Game} {i j : Nat} {peerId : String} {type : EventType}
  {who due : Option String} {card : Option Card} {color : Option Color}

/-- The penalties that have been told -/
def penalties (s : Game) : List Event := s.events.filter (·.type = .penalty)

/-- Who sits at the table, and who of them has called -/
def calls (s : Game) : List (String × Bool) := s.players.map fun p => (p.peerId, p.saidUno)

/-- No penalty is told, nobody calls, hands only grow, and the obligation lasts as long as the
round. -/
structure Grows (s s' : Game) : Prop where
  phase : s'.phase = .playing → s.phase = .playing
  penalties : s'.penalties = s.penalties
  calls : s'.calls = s.calls
  uno : s'.phase = .playing → s'.pendingUnoPeer = s.pendingUnoPeer
  unoFree : s'.pendingUnoPeer = s.pendingUnoPeer ∨ s'.pendingUnoPeer = none
  pass : s'.drewCanPass = s.drewCanPass ∨ s'.drewCanPass = none
  hand : ∀ (j : Nat) (p : Player), s.players[j]? = some p →
    ∃ p' : Player, s'.players[j]? = some p' ∧ p.hand <+: p'.hand

namespace Grows

theorem of_players (hphase : s'.phase = .playing → s.phase = .playing)
    (hplayers : s'.players = s.players) (hpenalties : s'.penalties = s.penalties)
    (huno : s'.pendingUnoPeer = s.pendingUnoPeer)
    (hpass : s'.drewCanPass = s.drewCanPass ∨ s'.drewCanPass = none) : Grows s s' where
  phase := hphase
  penalties := hpenalties
  calls := congrArg (List.map _) hplayers
  uno _ := huno
  unoFree := .inl huno
  pass := hpass
  hand _ p hp := ⟨p, by rwa [hplayers], prefix_rfl⟩

theorem refl (s : Game) : Grows s s := of_players id rfl rfl rfl (.inl rfl)

theorem trans (h : Grows s s') (h' : Grows s' s'') : Grows s s'' where
  phase := h.phase ∘ h'.phase
  penalties := h'.penalties.trans h.penalties
  calls := h'.calls.trans h.calls
  uno hphase := (h'.uno hphase).trans (h.uno (h'.phase hphase))
  unoFree := by
    obtain hsame | hnone := h'.unoFree
    · exact hsame ▸ h.unoFree
    · exact .inr hnone
  pass := by
    obtain hsame | hnone := h'.pass
    · exact hsame ▸ h.pass
    · exact .inr hnone
  hand j p hp := by
    obtain ⟨p', hp', hprefix⟩ := h.hand j p hp
    obtain ⟨p'', hp'', hprefix'⟩ := h'.hand j p' hp'
    exact ⟨p'', hp'', hprefix.trans hprefix'⟩

theorem modifyPlayer {f : Player → Player} (hseat : ∀ p, (f p).peerId = p.peerId)
    (hsaid : ∀ p, (f p).saidUno = p.saidUno) (hhand : ∀ p : Player, p.hand <+: (f p).hand) :
    Grows s (s.modifyPlayer i f) where
  phase := id
  penalties := rfl
  calls := map_modify_of_eq (fun p => Prod.ext (hseat p) (hsaid p)) _ _
  uno _ := rfl
  unoFree := .inl rfl
  pass := .inl rfl
  hand j p hp := by
    change ∃ p', (s.players.modify i f)[j]? = some p' ∧ _
    rw [getElem?_modify, hp]
    split
    · exact ⟨f p, rfl, hhand p⟩
    · exact ⟨p, rfl, prefix_rfl⟩

end Grows

theorem penalties_emitEvent (h : type ≠ .penalty) :
    (s.emitEvent type who card color).penalties = s.penalties := by
  rw [penalties, emitEvent, filter_append, filter_cons_of_neg (by simpa using h),
    filter_nil, append_nil]
  rfl

theorem grows_emitEvent (h : type ≠ .penalty) : Grows s (s.emitEvent type who card color) :=
  .of_players id rfl (penalties_emitEvent h) rfl (.inl rfl)

theorem Drawn.grows {drawn : List Card} (h : Drawn s i drawn s') : Grows s s' := by
  obtain ⟨drawPile, discardPile, taken, rfl⟩ := h.eq
  have hreceive : Grows s (s.modifyPlayer i (·.receive drawn)) :=
    .modifyPlayer (fun _ => rfl) (fun _ => rfl) fun p => prefix_append p.hand drawn
  exact hreceive.trans (.of_players id rfl rfl rfl (.inl rfl))

theorem grows_drawCardsFor (s : Game) (i count : Nat) : Grows s (s.drawCardsFor i count).1 :=
  (drawn_drawCardsFor s i count).1.grows

/-! ## What follows the settling -/

theorem grows_passTo (s : Game) (idx : Int) : Grows s (s.passTo idx) :=
  .of_players id rfl rfl rfl (.inl rfl)

theorem grows_scheduleTurnTimer (s : Game) : Grows s s.scheduleTurnTimer :=
  .of_players id rfl rfl rfl (.inl rfl)

theorem grows_resolveDraw (s : Game) (count : Nat) (type : DrawType) :
    Grows s (s.resolveDraw count type) := by
  rw [resolveDraw]
  split
  · exact .of_players id rfl rfl rfl (.inl rfl)
  · have hdraw := grows_drawCardsFor s (s.nextIndex s.toActIdx 1).toNat count
    exact hdraw.trans ((grows_emitEvent (by decide)).trans (grows_passTo _ _))

theorem grows_resolveCard (s : Game) (card : Card) : Grows s (s.resolveCard card) := by
  rw [resolveCard]
  split
  · exact grows_passTo s _
  · rw [resolveReverse]
    split
    · exact grows_passTo s _
    · exact .of_players id rfl rfl rfl (.inl rfl)
  · exact grows_resolveDraw s 2 .draw2
  · exact grows_passTo s _

theorem grows_forceDrawStack (s : Game) (peerId : String) :
    Grows s (s.forceDrawStack peerId) := by
  rw [forceDrawStack]
  split
  · exact .refl s
  rename_i i _
  split
  · exact .refl s
  have hdraw := grows_drawCardsFor s i s.pendingDrawStack
  have hclear : Grows (s.drawCardsFor i s.pendingDrawStack).1
      { (s.drawCardsFor i s.pendingDrawStack).1 with
        pendingDrawStack := 0, pendingDrawType := none, drewCanPass := none } :=
    .of_players id rfl rfl rfl (.inr rfl)
  exact hdraw.trans (hclear.trans ((grows_emitEvent (by decide)).trans
    ((grows_passTo _ _).trans (grows_scheduleTurnTimer _))))

theorem grows_applyPointsForRound (s : Game) (peerId : String) :
    Grows s (s.applyPointsForRound peerId) := by
  rw [applyPointsForRound]
  split
  · exact .refl s
  split
  · exact .refl s
  have hwon : ∀ i points, Grows s (s.modifyPlayer i (·.addScore points)) := fun i points =>
    .modifyPlayer (fun _ => rfl) (fun _ => rfl) fun _ => prefix_rfl
  dsimp only
  split
  · exact (hwon _ _).trans (.of_players (fun h => by cases h) rfl rfl rfl (.inl rfl))
  · exact hwon _ _

theorem grows_finishRound (s : Game) (peerId : String) : Grows s (s.finishRound peerId) := by
  have hphase := phase_finishRound s peerId
  have hpoints := grows_applyPointsForRound
    { s with
      roundWinner := some peerId
      pendingColorChoice := none
      pendingDrawStack := 0
      pendingDrawType := none
      drewCanPass := none
      pendingUnoPeer := none } peerId
  have huno := hpoints.unoFree
  have hpass := hpoints.pass
  rw [or_self] at huno hpass
  rw [finishRound] at hphase ⊢
  split
  · exact ⟨(fun h => by cases h), hpoints.penalties, hpoints.calls, (fun h => by cases h),
      .inr huno, .inr hpass, hpoints.hand⟩
  rename_i hover
  rw [if_neg hover] at hphase
  exact ⟨fun h => absurd h hphase, hpoints.penalties, hpoints.calls, fun h => absurd h hphase,
    .inr huno, .inr hpass, hpoints.hand⟩

theorem grows_setColor (s : Game) (peerId : String) (color : Color) :
    Grows s (s.setColor peerId color) := by
  have hset : Grows s (s.withColor peerId color) :=
    .of_players id rfl (penalties_emitEvent (by decide)) rfl (.inl rfl)
  rw [setColor]
  split
  · refine Grows.trans ?_ (grows_finishRound _ peerId)
    split
    · exact hset.trans (grows_resolveDraw _ 4 .draw4)
    · exact hset
  refine Grows.trans ?_ (grows_scheduleTurnTimer _)
  split
  · exact hset.trans (grows_resolveDraw _ 4 .draw4)
  · exact hset.trans (grows_passTo _ _)

/-! ## The settling -/

/-- `peerId` holds exactly one card. -/
def holdsOne (s : Game) (peerId : String) : Bool :=
  (s.playerIndex peerId).any fun i => s.players[i]?.any (·.hand.length = 1)

/-- Who has to draw the penalty when `peerId` acts and `owed` has not called -/
def duePenalty (s : Game) (owed : Option String) (peerId : String) : Option String :=
  owed.filter fun p => p ≠ peerId && s.holdsOne p

/-- The player under the obligation has not called. -/
def Silent (s : Game) : Prop := ∀ x ∈ s.calls, s.pendingUnoPeer = some x.1 → x.2 = false

/-- The penalty of `due` is told, once, and its cards are drawn. -/
structure Pays (s : Game) (due : Option String) (s' : Game) : Prop where
  penalties : s'.penalties = s.penalties ++ due.toList.map fun p => ⟨.penalty, some p, none, none⟩
  draws : ∀ (p : String) (j : Nat) (player : Player), due = some p → s.playerIndex p = some j →
    s.players[j]? = some player → ∃ (player' : Player) (cards : List Card),
      s'.players[j]? = some player' ∧ cards.length = min s.cfg.penaltyCards s.available ∧
        player.hand ++ cards <+: player'.hand

theorem Grows.pays (h : Grows s s') : Pays s none s' where
  penalties := h.penalties.trans (append_nil _).symm
  draws _ _ _ hdue := by cases hdue

theorem Pays.mono (h : Pays s due s') (hpenalties : s''.penalties = s'.penalties)
    (hhand : ∀ (j : Nat) (p : Player), s'.players[j]? = some p →
      ∃ p' : Player, s''.players[j]? = some p' ∧ p.hand <+: p'.hand) : Pays s due s'' where
  penalties := hpenalties.trans h.penalties
  draws p j player hdue hj hplayer := by
    obtain ⟨player', cards, hplayer', hlength, hprefix⟩ := h.draws p j player hdue hj hplayer
    obtain ⟨player'', hplayer'', hprefix'⟩ := hhand j player' hplayer'
    exact ⟨player'', cards, hplayer'', hlength, hprefix.trans hprefix'⟩

theorem Pays.grows (h : Pays s due s') (h' : Grows s' s'') :
    Pays s due s'' := h.mono h'.penalties h'.hand

theorem mem_calls {p : Player} (h : s.players[i]? = some p) : (p.peerId, p.saidUno) ∈ s.calls :=
  mem_map_of_mem (mem_of_getElem? h)

theorem pays_settleUno (hs : Silent s) (peerId : String) :
    Pays s (s.duePenalty s.pendingUnoPeer peerId) (s.settleUno peerId) ∧
      (s.settleUno peerId).calls = s.calls := by
  rw [settleUno, duePenalty]
  cases hpending : s.pendingUnoPeer with
  | none => exact ⟨(Grows.refl s).pays, rfl⟩
  | some pending =>
    dsimp only
    by_cases hsame : pending = peerId
    · rw [if_pos hsame, Option.filter_some, if_neg (by simp [hsame])]
      exact ⟨(Grows.refl s).pays, rfl⟩
    rw [if_neg hsame, checkUnoPenalty, Option.filter_some, holdsOne]
    cases hi : s.playerIndex pending with
    | none =>
      rw [Option.any_none, Bool.and_false, if_neg (by decide)]
      exact ⟨(Grows.refl s).pays, rfl⟩
    | some i =>
      obtain ⟨player, hplayer, hid⟩ := peerId_of_playerIndex hi
      have hsaid : player.saidUno = false :=
        hs _ (mem_calls hplayer) (hpending.trans (congrArg some hid.symm))
      dsimp only
      rw [Option.any_some, hplayer, Option.any_some, Option.any_some, hsaid, Bool.not_false,
        Bool.and_true, decide_eq_true hsame, Bool.true_and]
      split
      · obtain ⟨hdrawn, hlength⟩ := drawn_drawCardsFor s i s.cfg.penaltyCards
        have hgrows := hdrawn.grows
        refine ⟨⟨?_, fun p j q hp hj hq => ?_⟩, hgrows.calls⟩
        · rw [Option.toList_some, map_singleton, ← hgrows.penalties]
          exact filter_append _ _
        cases hp
        obtain rfl := Option.some.inj (hi.symm.trans hj)
        obtain ⟨drawPile, discardPile, taken, heq⟩ := hdrawn.eq
        refine ⟨q.receive (s.drawCardsFor i s.cfg.penaltyCards).2, _, ?_, hlength,
          prefix_rfl⟩
        rw [heq]
        change (s.players.modify i _)[i]? = _
        rw [getElem?_modify_eq, hq]
        rfl
      · exact ⟨(Grows.refl s).pays, rfl⟩

end Bluetalk.Uno.Game

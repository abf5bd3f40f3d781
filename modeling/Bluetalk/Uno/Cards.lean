import Bluetalk.Uno.Seats

/-!
# The cards of a round

During a round every card of the deck is in a hand or in one of the piles, and is there once. The
one way to lose cards is a player that is taken off the table with a hand while the round goes on.
-/

open List Option

namespace Bluetalk.Uno

namespace Game

variable {s s' : Game} {peerId : String} {e : HostEvent} {idx : Nat}

/-- During a round the hands and the piles are the deck. -/
def Conserved (s : Game) : Prop := s.phase = .playing → s.cards = (buildDeck : Multiset Card)

/-- Nobody with cards is taken off the table while a round goes on without it. -/
def KeepsHands (s : Game) (e : HostEvent) : Prop :=
  ∀ p ∈ s.players, s.phase = .playing → e.removes = some p.peerId → p.peerId ≠ s.selfId →
    2 ≤ (s.activePlayers.filter (·.peerId ≠ p.peerId)).length → p.hand = []

/-! ## Dealing -/

theorem take_modify (l : List Player) (k : Nat) (f : Player → Player) :
    (l.modify k f).take k = l.take k := by
  refine ext_getElem? fun j => ?_
  rw [getElem?_take, getElem?_take]
  split
  · rename_i hj
    exact getElem?_modify_ne _ _ hj.ne'
  · rfl

theorem piles_dealTo (k : Nat) (hk : k ≤ s.players.length) :
    ((List.range k).foldl dealTo s).players.length = s.players.length ∧
      ((((List.range k).foldl dealTo s).players.take k).map
        fun p => (p.hand : Multiset Card)).sum + ((List.range k).foldl dealTo s).piles = s.piles := by
  induction k with
  | zero => exact ⟨rfl, zero_add _⟩
  | succ k ih =>
    obtain ⟨hlength, hsum⟩ := ih (Nat.le_of_succ_le hk)
    rw [range_succ, foldl_append, foldl_cons, foldl_nil]
    have hk' : k < ((List.range k).foldl dealTo s).players.length :=
      hlength.symm ▸ Nat.lt_of_succ_le hk
    generalize (List.range k).foldl dealTo s = t at hlength hsum hk'
    obtain ⟨hdrawn, -⟩ := drawn_drawCardsFor (t.modifyPlayer k (·.clearHand)) k 7
    have hpiles := hdrawn.piles
    rw [dealTo]
    generalize ((t.modifyPlayer k (·.clearHand)).drawCardsFor k 7).2 = drawn at hdrawn hpiles
    obtain ⟨drawPile, discardPile, taken, heq⟩ := hdrawn.eq
    rw [heq] at hpiles ⊢
    refine ⟨?_, ?_⟩
    · change ((t.players.modify k (·.clearHand)).modify k (·.receive drawn)).length = _
      rw [length_modify, length_modify, hlength]
    have hplayers : ((t.players.modify k (·.clearHand)).modify k (·.receive drawn)).take (k + 1) =
        t.players.take k ++ [(t.players[k].clearHand).receive drawn] := by
      rw [modify_modify_eq, take_add_one, take_modify, getElem?_modify_eq, getElem?_eq_getElem hk']
      rfl
    change ((((t.players.modify k (·.clearHand)).modify k (·.receive drawn)).take (k + 1)).map
      fun p => (p.hand : Multiset Card)).sum + _ = _
    rw [hplayers, map_append, sum_append, map_singleton, sum_singleton, add_assoc]
    change _ + ((drawn : Multiset Card) + _) = _
    rw [hpiles]
    exact hsum

theorem piles_pickStarterFrom (s : Game) (skipped pile : List Card) :
    (s.pickStarterFrom skipped pile).piles =
      (skipped : Multiset Card) + pile + s.discardPile := by
  induction pile generalizing skipped with
  | nil =>
    cases skipped with
    | nil => rfl
    | cons card rest =>
      change (shuffle _ rest : Multiset Card) + (s.discardPile ++ [card] : List Card) = _
      rw [Multiset.coe_eq_coe.mpr (shuffle_perm _ rest), Multiset.coe_nil, add_zero,
        Multiset.coe_add, Multiset.coe_add]
      refine Multiset.coe_eq_coe.mpr ?_
      rw [← append_assoc]
      exact (perm_append_singleton _ _)
  | cons card cards ih =>
    rw [pickStarterFrom]
    split
    · refine (ih (skipped ++ [card])).trans ?_
      rw [← Multiset.coe_add, ← Multiset.cons_coe, add_assoc (skipped : Multiset Card)]
      rfl
    split
    · rename_i hskipped
      rw [hskipped]
      change (cards.reverse : Multiset Card) + (s.discardPile ++ [card] : List Card) = _
      rw [Multiset.coe_nil, zero_add, Multiset.coe_add, Multiset.coe_add, Multiset.coe_eq_coe,
        ← append_assoc]
      refine (perm_append_singleton _ _).trans ?_
      exact ((reverse_perm _).append_right _).cons _
    · change (shuffle _ (cards.reverse ++ skipped) : Multiset Card) +
        (s.discardPile ++ [card] : List Card) = _
      rw [Multiset.coe_eq_coe.mpr (shuffle_perm _ _), Multiset.coe_add, Multiset.coe_add,
        Multiset.coe_add, Multiset.coe_eq_coe, ← append_assoc]
      refine (perm_append_singleton _ _).trans ?_
      rw [← cons_append, ← cons_append]
      refine List.Perm.append_right _ ?_
      have hreverse : (card :: (cards.reverse ++ skipped)).Perm ((card :: cards) ++ skipped) :=
        ((reverse_perm _).append_right _).cons _
      exact hreverse.trans perm_append_comm

theorem cards_deal (s : Game) : s.deal.cards = (buildDeck : Multiset Card) := by
  have hdeck : s.newRound.piles = (buildDeck : Multiset Card) := by
    rw [piles, newRound, Multiset.coe_nil, add_zero]
    rw [Multiset.coe_eq_coe]
    dsimp only
    exact shuffle_perm s.randomValues buildDeck
  obtain ⟨hdealt, hsum⟩ := piles_dealTo (s := s.newRound) s.players.length le_rfl
  rw [deal, pickStarterCard]
  generalize (List.range s.players.length).foldl dealTo s.newRound = dealt at hdealt hsum ⊢
  rw [take_of_length_le (show dealt.players.length ≤ s.players.length from hdealt.le),
    hdeck] at hsum
  rw [cards, hands, players_pickStarterFrom, piles_pickStarterFrom, Multiset.coe_nil, zero_add,
    Multiset.coe_eq_coe.mpr (reverse_perm _)]
  exact hsum

/-! ## Steps -/

/-- No two players have one peer id, and a round has players. -/
structure Inv (s : Game) : Prop where
  distinct : s.peerIds.Nodup
  occupied : s.phase = .playing → 0 < s.players.length

theorem inv_step (hs : Inv s) (h : s.step e = some s') : Inv s' := by
  obtain ⟨hdistinct, hoccupied⟩ := hs
  cases step_outcome h with
  | stays h =>
    exact ⟨h.peerIds ▸ hdistinct, fun hphase => h.length.symm ▸ hoccupied (h.phase hphase)⟩
  | dropped q idx h =>
    refine ⟨?_, fun hphase => ?_⟩
    · rw [peerIds, h.players, ← eraseIdx_map]
      exact hdistinct.sublist (eraseIdx_sublist _ _)
    have hactive : ¬(s.takeOff q idx).activePlayers.length < 2 := by
      intro hfew
      rw [h.phase] at hphase
      split at hphase
      · cases hphase
      · rename_i hnot
        exact hnot ⟨hphase, hfew⟩
    have hle : (s.takeOff q idx).activePlayers.length ≤ (s.takeOff q idx).players.length :=
      length_filter_le _ _
    rw [h.players]
    exact (Nat.lt_of_lt_of_le (by omega) hle : 0 < (s.takeOff q idx).players.length)
  | joined q hphase hnew h =>
    exact ⟨h.nodup_iff.mpr (nodup_cons.mpr ⟨hnew, hdistinct⟩), fun h' => absurd h' hphase⟩
  | idle hphase h =>
    exact ⟨peerIds_eq_of_seats h ▸ hdistinct, fun h' => absurd h' hphase⟩
  | started h =>
    have hids : s'.peerIds = s.peerIds := by
      rw [peerIds, h.players]
      exact peerIds_eq_of_seats (seats_deal s)
    refine ⟨hids ▸ hdistinct, fun _ => ?_⟩
    have hlength := congrArg List.length hids
    have hle : s.activePlayers.length ≤ s.players.length := length_filter_le _ _
    have henough := h.enough
    rw [peerIds, peerIds, length_map, length_map] at hlength
    omega

theorem hands_eraseIdx {players : List Player} (hidx : idx < players.length) :
    ((players.eraseIdx idx).map fun p => (p.hand : Multiset Card)).sum + players[idx].hand =
      (players.map fun p => (p.hand : Multiset Card)).sum := by
  have hperm := (getElem_cons_eraseIdx_perm hidx).map fun p => (p.hand : Multiset Card)
  rw [← hperm.sum_eq, map_cons, sum_cons, add_comm]

theorem cards_dropped (h : Dropped s peerId idx s')
    (hidx : idx < s.players.length) : s'.cards + s.players[idx].hand = s.cards := by
  rw [cards, cards, hands, hands, h.players, h.piles, add_right_comm, hands_eraseIdx hidx]

theorem conserved_step (hs : Inv s) (hp : Conserved s) (h : s.step e = some s') :
    Conserved s' ↔ KeepsHands s e := by
  cases step_outcome h with
  | stays h hremoves =>
    refine iff_of_true (fun hphase => ?_) fun p hp _ hremoved hother => ?_
    · exact (h.cards (hs.occupied (h.phase hphase))).trans (hp (h.phase hphase))
    · obtain hself | hnone := hremoves _ hremoved
      · exact absurd hself hother
      · exact absurd (mem_map_of_mem hp) hnone
  | dropped q idx h hremoves =>
    by_cases hphase : s.phase = .playing
    swap
    · refine iff_of_true (fun hphase' => ?_) fun p _ hphase' => absurd hphase' hphase
      rw [h.phase, if_neg fun h => hphase h.1] at hphase'
      exact absurd hphase' hphase
    obtain hremoved | ⟨-, hidle⟩ := hremoves
    swap
    · exact absurd hphase hidle
    have hidx := playerIndex_lt h.index
    have hq : s.players[idx].peerId = q := by
      obtain ⟨p, hp, hpid⟩ := peerId_of_playerIndex h.index
      rw [getElem?_eq_getElem hidx] at hp
      rw [some.inj hp]
      exact hpid
    have hactive := activePlayers_takeOff hs.distinct h.index
    by_cases hfew : (s.takeOff q idx).activePlayers.length < 2
    · refine iff_of_true (fun hphase' => ?_) fun p _ _ hpid _ hmany => ?_
      · rw [h.phase, if_pos ⟨hphase, hfew⟩] at hphase'
        cases hphase'
      · rw [hactive, others] at hfew
        rw [← some.inj (hremoved.symm.trans hpid)] at hmany
        omega
    have hphase' : s'.phase = .playing := by
      rw [h.phase, if_neg fun h => hfew h.2]
      exact hphase
    have hcards := cards_dropped h hidx
    rw [hp hphase] at hcards
    constructor
    · intro hconserved p hmem _ hpid _ _
      obtain rfl : s.players[idx] = p := inj_on_of_nodup_map hs.distinct
        (getElem_mem hidx) hmem (hq.trans (some.inj (hremoved.symm.trans hpid)))
      rw [hconserved hphase', add_eq_left] at hcards
      exact (Multiset.coe_eq_zero _).mp hcards
    intro hkeeps _
    have hempty := hkeeps _ (getElem_mem hidx) hphase (hremoved.trans (congrArg _ hq.symm))
      (hq.symm ▸ h.other) (by rw [hq]; rw [hactive, others] at hfew; omega)
    rw [hempty, Multiset.coe_nil, add_zero] at hcards
    exact hcards
  | joined q hphase _ _ hremoves | idle hphase _ hremoves =>
    exact iff_of_true (fun h' => absurd h' hphase) fun p _ _ hp => by cases hremoves.symm.trans hp
  | started h hremoves =>
    refine iff_of_true (fun _ => ?_) fun p _ _ hp => by cases hremoves.symm.trans hp
    rw [cards, hands, h.players, h.piles]
    exact cards_deal s

theorem Created.inv (h : s.Created) : Inv s :=
  ⟨h.spec.1, fun hphase => by cases h.spec.2.symm.trans hphase⟩

theorem Created.conserved (h : s.Created) : Conserved s :=
  fun hphase => by cases h.spec.2.symm.trans hphase

/-- The deck stays together all along a run exactly when nobody with cards is taken off the table
while a round goes on. -/
theorem conserved_iff_keepsHands {es : List HostEvent} (hs : s.Created)
    (h : FreeRun step s es s') : Always step Conserved s es ↔ Run step KeepsHands s es s' :=
  h.always_iff inv_step conserved_step hs.inv hs.conserved

/-- An open table of the host `"h"`, with the random numbers `random` -/
def openTable (random : Nat → Nat) : Game :=
  createHost ⟨none, none, none, none, none, none, none, some "public"⟩ "h" "g" defaultSettings [] 0
    [] (fun _ => false) random

theorem created_openTable (random : Nat → Nat) : (openTable random).Created :=
  ⟨_, _, _, _, _, _, _, _, _, rfl⟩

/-- Three players begin a round. -/
def threeBegin : List HostEvent := [.message "a" (.join "g"), .message "b" (.join "g"), .start]

/-- One of them goes offline and comes back. -/
theorem conserved_iff_keepsHands_offline : ∃ s, s.phase = .playing ∧
    (Always step Conserved (openTable fun _ => 0)
        (threeBegin ++ [.disconnected "a", .connected "a"]) ↔
      Run step KeepsHands (openTable fun _ => 0)
        (threeBegin ++ [.disconnected "a", .connected "a"]) s) := by
  have hexec : (exec step (openTable fun _ => 0)
      (threeBegin ++ [.disconnected "a", .connected "a"])).any (·.phase = .playing) := by
    decide +kernel
  obtain ⟨s, hs, hphase⟩ := (any_eq_true _ _).mp hexec
  exact ⟨s, of_decide_eq_true hphase, conserved_iff_keepsHands (created_openTable _) (.of_exec hs)⟩

/-- One of them leaves, and its seven cards with it. -/
theorem cards_lost : ¬ ∀ s es s', s.Created → FreeRun step s es s' → s'.Conserved := by
  intro h
  have hexec : (exec step (openTable fun _ => 0) (threeBegin ++ [.message "a" .leave])).any
      fun s => s.phase = .playing ∧ s.cards.card = 101 := by decide +kernel
  obtain ⟨s, hs, hlost⟩ := (any_eq_true _ _).mp hexec
  obtain ⟨hphase, hcards⟩ := of_decide_eq_true hlost
  have hall := congrArg Multiset.card (h _ _ s (created_openTable _) (.of_exec hs) hphase)
  rw [hcards, Multiset.coe_card, length_buildDeck] at hall
  cases hall

end Game
end Bluetalk.Uno

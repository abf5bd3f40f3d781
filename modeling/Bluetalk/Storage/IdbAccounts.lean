import Bluetalk.Storage.KvStore

/-!
# The databases of the browser store

The store reads a row from the database of the account and, where that has none, from the one of the
session. A store that has been opened for one account at most is `Settled`: a write changes what is
read for its own key, and stays in the same database.
-/

open Option

namespace Bluetalk.Storage
namespace IdbStore

variable {s s' : IdbStore} {key key' name name' : String} {value peerId : Json}

theorem row_putRow : (s.putRow name key value).row name' key' =
    if name' = name ∧ key' = key then some value else s.row name' key' := by
  unfold row putRow
  by_cases hname : name' = name
  · simp only [hname, if_true, true_and, lookup_setField]
  · simp only [hname, if_false, false_and]

theorem row_deleteRow : (s.deleteRow name key).row name' key' =
    if name' = name ∧ key' = key then none else s.row name' key' := by
  unfold row deleteRow
  by_cases hname : name' = name
  · simp only [hname, if_true, true_and, lookup_eraseField]
  · simp only [hname, if_false, false_and]

/-- The database in use. -/
def db (s : IdbStore) : String := s.accountDbName.getD sessionDb

/-- What is read for the first segment of a key. -/
def top (s : IdbStore) (key : String) : Option Json := (s.kvGetRaw key).2

/-- The database that the next transaction of a call is about. -/
def inUse (s : IdbStore) : String := s.accountDb.2

/-- What is read for a key by a call that has the database `name`. -/
def rowFrom (s : IdbStore) (name key : String) : Option Json :=
  (s.row name key).or (if name ≠ sessionDb then s.row sessionDb key else none)

/-- A store that has been opened for one account at most. -/
structure Settled (s : IdbStore) : Prop where
  session : s.accountDbName = none → s.row sessionDb "activePeerId" = none ∧
    s.accountPeerId = .str "" ∧ ∀ name, name ≠ sessionDb → ∀ key, s.row name key = none
  account : s.accountDbName ≠ none → ∃ t, t ≠ "" ∧ jsTrim t = t ∧ s.accountPeerId = .str t

/-- A write that turns the store from one account to another. -/
def Turns (s : IdbStore) (key : String) (value : Json) : Prop :=
  key = "cloudAccount" ∧ s.accountDbName ≠ none ∧
    jsTrim (value.get "peerId").textOrEmpty ≠ "" ∧
    Json.str (jsTrim (value.get "peerId").textOrEmpty) ≠ s.accountPeerId

instance : Decidable (s.Turns key value) := inferInstanceAs (Decidable (_ ∧ _))

/-- `s'` is `s` but for what is read for `key`, which is `x`, and for the row of the store itself. -/
structure Writes (s s' : IdbStore) (key : String) (x : Option Json) : Prop where
  settled : s'.Settled
  here : s'.top key = x
  others : ∀ key', key' ≠ key → key' ≠ "activePeerId" → s'.top key' = s.top key'

theorem settled_empty : Settled {} where
  session _ := ⟨rfl, rfl, fun _ _ _ => rfl⟩
  account h := absurd rfl h

/-! ### Reading -/

theorem kv_accountDb (s : IdbStore) : s.accountDb.1.kv = s.kv := by
  rw [accountDb]
  split
  · rfl
  · split
    · rfl
    · split <;> rfl

theorem row_accountDb : s.accountDb.1.row name key = s.row name key :=
  congrArg (fun kv => (kv name).lookup key) s.kv_accountDb

theorem kvGetRaw_eq (s : IdbStore) (key : String) : s.kvGetRaw key = (s.accountDb.1, s.top key) := by
  rw [top, kvGetRaw]
  dsimp only
  split <;> rfl

theorem top_eq (s : IdbStore) (key : String) : s.top key = s.rowFrom s.inUse key := by
  rw [top, kvGetRaw, rowFrom, inUse]
  dsimp only
  rw [row_accountDb, row_accountDb]
  cases s.row s.accountDb.2 key <;> rfl

theorem rowFrom_session : s.rowFrom sessionDb key = s.row sessionDb key := by
  rw [rowFrom, if_neg fun hne => hne rfl, or_none]

theorem Settled.accountDb (h : s.Settled) : s.accountDb = (s, s.db) := by
  rw [IdbStore.accountDb, IdbStore.db]
  cases hname : s.accountDbName with
  | some name => rfl
  | none =>
    rw [(h.session hname).1]
    rfl

theorem Settled.kvGetRaw (h : s.Settled) : s.kvGetRaw key = (s, s.top key) := by
  rw [kvGetRaw_eq, h.accountDb]

theorem Settled.top_eq (h : s.Settled) : s.top key = s.rowFrom s.db key := by
  rw [IdbStore.top_eq, inUse, h.accountDb]

theorem Settled.top_of_session (h : s.Settled) (hdb : s.db = sessionDb) :
    s.top key = s.row sessionDb key := by
  rw [h.top_eq, rowFrom, hdb, if_neg fun hne => hne rfl, or_none]

theorem Settled.top_of_row (h : s.Settled) (hrow : s.row s.db key = some value) :
    s.top key = some value := by
  rw [h.top_eq, rowFrom, hrow, some_or]

/-! ### Writing -/

theorem Settled.rememberPeerId (h : s.Settled) (hturn : s.accountDbName ≠ none →
    jsTrim peerId.textOrEmpty ≠ "" → Json.str (jsTrim peerId.textOrEmpty) = s.accountPeerId) :
    (s.rememberPeerId peerId).Settled ∧
      ∀ key, key ≠ "activePeerId" → (s.rememberPeerId peerId).top key = s.top key := by
  rw [IdbStore.rememberPeerId]
  split
  · exact ⟨h, fun _ _ => rfl⟩
  next hopen =>
  have hblank : jsTrim peerId.textOrEmpty ≠ "" := fun heq => hopen (.inl heq)
  have hname : s.accountDbName = none := by
    by_contra hne
    exact hopen (.inr (hturn hne hblank))
  generalize hs' : { s.putRow sessionDb "activePeerId" (.str (jsTrim peerId.textOrEmpty)) with
    accountPeerId := .str (jsTrim peerId.textOrEmpty),
    accountDbName := some ("bluetalk-web-" ++ jsTrim peerId.textOrEmpty) } = s'
  have hsettled : s'.Settled := by
    subst hs'
    exact ⟨nofun, fun _ => ⟨_, hblank, trimBy_trimBy, rfl⟩⟩
  have hrow : ∀ name key, key ≠ "activePeerId" → s'.row name key = s.row name key := by
    intro name key hkey
    have hput : (s.putRow sessionDb "activePeerId" (.str (jsTrim peerId.textOrEmpty))).row name key =
        s.row name key := row_putRow.trans (if_neg fun hand => hkey hand.2)
    subst hs'
    exact hput
  refine ⟨hsettled, fun key hkey => ?_⟩
  have hdb : s.db = sessionDb := by rw [IdbStore.db, hname]; rfl
  rw [h.top_of_session hdb]
  by_cases hsession : s'.db = sessionDb
  · rw [hsettled.top_of_session hsession, hrow _ _ hkey]
  · rw [hsettled.top_eq, rowFrom, hrow _ _ hkey, hrow _ _ hkey, (h.session hname).2.2 _ hsession,
      none_or, if_pos hsession]

theorem Settled.rememberPeerId_self (h : s.Settled) (htruthy : s.accountPeerId.truthy) :
    s.rememberPeerId s.accountPeerId = s := by
  by_cases hname : s.accountDbName = none
  · rw [(h.session hname).2.1] at htruthy
    exact absurd htruthy nofun
  obtain ⟨t, _, htrim, ht⟩ := h.account hname
  have htext : jsTrim s.accountPeerId.textOrEmpty = t := by
    rw [Json.textOrEmpty, if_pos htruthy, ht]
    exact htrim
  exact if_pos (.inr (by rw [htext, ht]))

theorem Settled.putRow (h : s.Settled) (hkey : key ≠ "activePeerId") :
    Writes s (s.putRow s.db key value) key (some value) := by
  have hrow : (s.putRow s.db key value).row s.db key = some value := by
    rw [row_putRow, if_pos ⟨rfl, rfl⟩]
  have hsettled : (s.putRow s.db key value).Settled := by
    refine ⟨fun hname => ?_, h.account⟩
    obtain ⟨hactive, hpeer, hempty⟩ := h.session hname
    have hdb : s.db = sessionDb := by
      rw [IdbStore.db, show s.accountDbName = none from hname]
      rfl
    refine ⟨?_, hpeer, fun name hne key' => ?_⟩
    · rw [row_putRow, if_neg fun hand => hkey hand.2.symm, hactive]
    · rw [row_putRow, if_neg fun hand => hne (hand.1.trans hdb), hempty name hne]
  refine ⟨hsettled, hsettled.top_of_row hrow, fun key' hne _ => ?_⟩
  have hother : ∀ name, (s.putRow s.db key value).row name key' = s.row name key' := by
    intro name
    rw [row_putRow, if_neg fun hand => hne hand.2]
  rw [hsettled.top_eq, h.top_eq, rowFrom, rowFrom, hother, hother]
  rfl

theorem Settled.copy (h : s.Settled) (hdb : s.db ≠ sessionDb) (hrow : s.row s.db key = some value) :
    Writes s ((s.putRow sessionDb key value).putRow sessionDb "activePeerId" peerId) key
      (some value) := by
  have haccount : ∀ key', ((s.putRow sessionDb key value).putRow sessionDb "activePeerId" peerId).row
      s.db key' = s.row s.db key' := by
    intro key'
    rw [row_putRow, if_neg fun hand => hdb hand.1, row_putRow, if_neg fun hand => hdb hand.1]
  have hsettled :
      ((s.putRow sessionDb key value).putRow sessionDb "activePeerId" peerId).Settled := by
    refine ⟨fun hname => absurd ?_ hdb, h.account⟩
    rw [IdbStore.db, show s.accountDbName = none from hname]
    rfl
  refine ⟨hsettled, hsettled.top_of_row ((haccount key).trans hrow), fun key' hne hactive => ?_⟩
  rw [hsettled.top_eq, h.top_eq]
  refine congrArg₂ Option.or (haccount key') (congrArg₂ (ite (s.db ≠ sessionDb)) ?_ rfl)
  rw [row_putRow, if_neg fun hand => hactive hand.2, row_putRow, if_neg fun hand => hne hand.2]

theorem Writes.trans {s'' : IdbStore} {x y : Option Json} (h : Writes s s' key x)
    (h' : Writes s' s'' key y) : Writes s s'' key y :=
  ⟨h'.settled, h'.here, fun key' hne hactive =>
    (h'.others key' hne hactive).trans (h.others key' hne hactive)⟩

theorem Settled.kvPutRaw (h : s.Settled) (hkey : key ≠ "activePeerId") (hturn : ¬ s.Turns key value) :
    Writes s (s.kvPutRaw key value) key (some value) := by
  rw [IdbStore.kvPutRaw]
  dsimp only
  generalize hs₁ : (if key = "cloudAccount" ∧ (value.get "peerId").truthy = true then
    s.rememberPeerId (value.get "peerId") else s) = s₁
  have hremember : s₁.Settled ∧ ∀ key, key ≠ "activePeerId" → s₁.top key = s.top key := by
    subst hs₁
    split
    · next hcloud =>
      apply h.rememberPeerId
      intro hname hblank
      by_contra hother
      exact hturn ⟨hcloud.1, hname, hblank, hother⟩
    · exact ⟨h, fun _ _ => rfl⟩
  obtain ⟨h₁, hsame⟩ := hremember
  have hself : (if key = "networkIdentity" ∧ s₁.accountPeerId.truthy = true then
      s₁.rememberPeerId s₁.accountPeerId else s₁) = s₁ := by
    split
    · next hidentity => exact h₁.rememberPeerId_self hidentity.2
    · rfl
  rw [hself, h₁.accountDb]
  have hput : Writes s (s₁.putRow s₁.db key value) key (some value) :=
    ⟨(h₁.putRow hkey).settled, (h₁.putRow hkey).here, fun key' hne hactive =>
      ((h₁.putRow hkey).others key' hne hactive).trans (hsame key' hactive)⟩
  split
  · next hcopy =>
    apply hput.trans
    apply hput.settled.copy hcopy.2.2
    exact row_putRow.trans (if_pos ⟨rfl, rfl⟩)
  · exact hput

theorem Settled.kvDeleteRaw (h : s.Settled)
    (hrow : s.db ≠ sessionDb → s.row sessionDb key = none) :
    Writes s (s.kvDeleteRaw key) key none := by
  have hdelete : s.kvDeleteRaw key = s.deleteRow s.db key := by
    rw [IdbStore.kvDeleteRaw, h.accountDb]
  have hmono : ∀ name key', s.row name key' = none → (s.deleteRow s.db key).row name key' = none := by
    intro name key' hnone
    rw [row_deleteRow]
    split
    · rfl
    · exact hnone
  have hsettled : (s.deleteRow s.db key).Settled := by
    refine ⟨fun hname => ?_, h.account⟩
    obtain ⟨hactive, hpeer, hempty⟩ := h.session hname
    exact ⟨hmono _ _ hactive, hpeer, fun name hne key' => hmono _ _ (hempty name hne key')⟩
  rw [hdelete]
  refine ⟨hsettled, ?_, fun key' hne _ => ?_⟩
  · have hhere : (s.deleteRow s.db key).row s.db key = none := by
      rw [row_deleteRow, if_pos ⟨rfl, rfl⟩]
    rw [hsettled.top_eq, rowFrom]
    refine (congrArg₂ Option.or hhere rfl).trans ?_
    split
    · next hdb => exact hmono _ _ (hrow hdb)
    · rfl
  · have hother : ∀ name, (s.deleteRow s.db key).row name key' = s.row name key' := by
      intro name
      rw [row_deleteRow, if_neg fun hand => hne hand.2]
    rw [hsettled.top_eq, h.top_eq, rowFrom, rowFrom, hother, hother]
    rfl

end IdbStore
end Bluetalk.Storage

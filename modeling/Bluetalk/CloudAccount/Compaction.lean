import Bluetalk.CloudAccount.Outbox
import Bluetalk.Relay.SyncLogInvariants
import Bluetalk.Theory.Last

/-!
# The outbox is compact

The outbox holds one change for each logical key, the last one that was enqueued. Its push leaves
the log of the relay with the items that a push of every single change leaves there, but for the
messages that a deletion of their chat took out of the outbox before they were sent.
-/

open List Option

namespace Bluetalk.CloudAccount
open Relay

variable {box : List Change} {c x : Change} {k : String} {now : Int} {changes : List (Change × Int)}

/-! ## Steps of the outbox -/

/-- A change as it is enqueued -/
def stamp (change : Change) (now : Int) : Change :=
  { change with ts := if 0 < change.ts then change.ts else now }

/-- What happens to an outbox. -/
inductive OutboxStep
  | enqueue (change : Change) (now : Int)
  | dropIfRemoteNewer (logicalKey : String) (remoteTs : Int)
  | removeSent (sent : List Change)

def outboxStep (box : List Change) : OutboxStep → List Change
  | .enqueue change now => mergeOutbox box change now
  | .dropIfRemoteNewer logicalKey remoteTs => dropOutboxIfRemoteNewer box logicalKey remoteTs
  | .removeSent sent => removeSentFromOutbox box sent

def outboxAfter (steps : List OutboxStep) : List Change := steps.foldl outboxStep []

def OutboxStep.enqueued : OutboxStep → Option Change
  | .enqueue change now => some (stamp change now)
  | _ => none

/-- The last change of a logical key -/
def latest (k : String) (changes : List Change) : Option Change :=
  lastSome (fun c => if logicalKeyOf c = k then some c else none) changes

/-- A message of a chat, and the deletion of the chat -/
def covers : ChangeBody → ChangeBody → Bool
  | .chatDel peerId, .msgDel peerId' _ | .chatDel peerId, .msg peerId' _ _ => peerId = peerId'
  | _, _ => false

theorem mergeOutbox_stamp (box : List Change) (change : Change) (now : Int) :
    mergeOutbox box change now = mergeOutbox box ⟨0, change.body⟩ (stamp change now).ts := by
  simp only [mergeOutbox, stamp, Int.lt_irrefl, if_false]

theorem nodup_mergeOutbox (change : Change) (now : Int) (h : (box.map logicalKeyOf).Nodup) :
    ((mergeOutbox box change now).map logicalKeyOf).Nodup := by
  rw [mergeOutbox_stamp]
  cases hbody : change.body with
  | storeEntry | store => exact nodup_put h
  | chatDel | msgDel | msg => exact nodup_mergeOutbox_message rfl h

theorem keptByChatDel_iff {peerId : String} : keptByChatDel peerId c = true ↔
    logicalKeyOf c ≠ "chat:" ++ peerId ∧ covers (.chatDel peerId) c.body = false := by
  obtain ⟨t, body⟩ := c
  have hhead : ∀ {s : String}, s.toList.head? ≠ some 'c' → s ≠ "chat:" ++ peerId := by
    rintro s hs rfl
    exact hs (by simp)
  cases body with
  | chatDel p => simp [keptByChatDel, logicalKeyOf, ChangeBody.logicalKey, covers]
  | msgDel p m | msg p m message =>
    have hkey := hhead (s := "msg:" ++ p ++ ":" ++ m) (by simp)
    simp [keptByChatDel, logicalKeyOf, ChangeBody.logicalKey, covers, hkey, eq_comm (a := p)]
  | storeEntry key id patch =>
    have hkey := hhead (s := storeEntryKey key id) (by simp [storeEntryKey])
    simp [keptByChatDel, logicalKeyOf, ChangeBody.logicalKey, covers, hkey]
  | store key =>
    have hkey := hhead (s := "store:" ++ key) (by simp)
    simp [keptByChatDel, logicalKeyOf, ChangeBody.logicalKey, covers, hkey]

/-- A new change replaces that of its key, and the deletion of a chat those of its messages. -/
theorem mem_mergeOutbox (change : Change) (now : Int) (h : (box.map logicalKeyOf).Nodup) :
    c ∈ mergeOutbox box change now ↔ c = stamp change now ∨
      c ∈ box ∧ logicalKeyOf c ≠ logicalKeyOf change ∧ covers change.body c.body = false := by
  obtain ⟨t, body⟩ := change
  cases body with
  | storeEntry key id patch | store key | msg peerId messageId message =>
    refine (mem_put h).trans (or_congr_right (and_congr_right fun _ => ?_))
    exact (and_iff_left rfl).symm
  | chatDel peerId =>
    refine mem_append.trans (or_comm.trans (or_congr mem_singleton ?_))
    exact mem_filter.trans (and_congr_right fun _ => keptByChatDel_iff)
  | msgDel peerId messageId =>
    have hkept : ∀ c : Change, keptByMsgDel peerId messageId c = false →
        logicalKeyOf c = "msg:" ++ peerId ++ ":" ++ messageId := by
      rintro ⟨t, body⟩ hc
      cases body with
      | msg p m message =>
        obtain ⟨rfl, rfl⟩ : p = peerId ∧ m = messageId := by simpa [keptByMsgDel] using hc
        rfl
      | storeEntry | store | chatDel | msgDel => cases hc
    refine (mem_put (h.sublist (filter_sublist.map _))).trans
      (or_congr_right (Iff.trans (and_congr_left fun hne => ?_)
        (and_congr_right fun _ => (and_iff_left rfl).symm)))
    refine mem_filter.trans (and_iff_left ?_)
    by_contra hnot
    exact hne (hkept c (by simpa using hnot))

theorem nodup_outboxStep (step : OutboxStep) (h : (box.map logicalKeyOf).Nodup) :
    ((outboxStep box step).map logicalKeyOf).Nodup := by
  cases step with
  | enqueue change now => exact nodup_mergeOutbox change now h
  | dropIfRemoteNewer | removeSent => exact h.sublist (filter_sublist.map _)

theorem nodup_outboxAfter (steps : List OutboxStep) :
    ((outboxAfter steps).map logicalKeyOf).Nodup := by
  induction steps using List.reverseRecOn with
  | nil => exact nodup_nil
  | append_singleton steps step ih =>
    rw [outboxAfter, foldl_append]
    exact nodup_outboxStep step ih

theorem latest_of_mem_outboxAfter {steps : List OutboxStep} (h : c ∈ outboxAfter steps) :
    latest (logicalKeyOf c) (steps.filterMap OutboxStep.enqueued) = some c := by
  induction steps using List.reverseRecOn with
  | nil => cases h
  | append_singleton steps step ih =>
    rw [outboxAfter, foldl_append] at h
    rw [latest, filterMap_append, lastSome_append]
    cases step with
    | enqueue change now =>
      have henqueued : [OutboxStep.enqueue change now].filterMap OutboxStep.enqueued =
          [stamp change now] := rfl
      rcases (mem_mergeOutbox change now (nodup_outboxAfter steps)).mp h with rfl | ⟨h, hne, -⟩
      · rw [henqueued, lastSome_singleton, if_pos rfl, some_or]
      · have hsilent : logicalKeyOf (stamp change now) ≠ logicalKeyOf c := Ne.symm hne
        rw [henqueued, lastSome_singleton, if_neg hsilent, none_or]
        exact ih h
    | dropIfRemoteNewer | removeSent => exact ih (mem_filter.mp h).1

/-! ## Local changes -/

/-- The outbox of a sequence of local changes -/
def compact (changes : List (Change × Int)) : List Change :=
  changes.foldl (fun box c => mergeOutbox box c.1 c.2) []

def stamped (changes : List (Change × Int)) : List Change := changes.map fun c => stamp c.1 c.2

/-- The last change of a key is one to a message, and its chat is deleted later. -/
def Covered (changes : List Change) (k : String) : Prop :=
  ∃ before c after, changes = before ++ c :: after ∧ logicalKeyOf c = k ∧
    (∀ x ∈ after, logicalKeyOf x ≠ k) ∧ ∃ x ∈ after, covers x.body c.body = true

theorem nodup_compact (changes : List (Change × Int)) :
    ((compact changes).map logicalKeyOf).Nodup := by
  induction changes using List.reverseRecOn with
  | nil => exact nodup_nil
  | append_singleton changes change ih =>
    rw [compact, foldl_append]
    exact nodup_mergeOutbox change.1 change.2 ih

theorem mem_compact : c ∈ compact changes ↔
    ∃ before after, stamped changes = before ++ c :: after ∧
      ∀ x ∈ after, logicalKeyOf c ≠ logicalKeyOf x ∧ covers x.body c.body = false := by
  induction changes using List.reverseRecOn with
  | nil =>
    constructor
    · intro h
      cases h
    · rintro ⟨before, after, h, -⟩
      exact absurd (congrArg List.length h) (by simp [stamped])
  | append_singleton changes change ih =>
    have hmerge := mem_mergeOutbox (c := c) change.1 change.2 (nodup_compact changes)
    have hstamped : stamped (changes ++ [change]) =
        stamped changes ++ [stamp change.1 change.2] := map_append
    rw [compact, foldl_append]
    refine hmerge.trans ?_
    rw [hstamped]
    constructor
    · rintro (rfl | ⟨h, hkey, hcovers⟩)
      · exact ⟨stamped changes, [], rfl, fun x hx => by cases hx⟩
      · obtain ⟨before, after, hsplit, hafter⟩ := ih.mp h
        refine ⟨before, after ++ [stamp change.1 change.2], by rw [hsplit]; simp, fun x hx => ?_⟩
        rcases mem_append.mp hx with hx | hx
        · exact hafter x hx
        · rw [mem_singleton.mp hx]
          exact ⟨hkey, hcovers⟩
    · rintro ⟨before, after, hsplit, hafter⟩
      rcases snoc_eq_append_cons_iff.mp hsplit with ⟨after', rfl, h⟩ | ⟨-, -, rfl⟩
      · have hlast := hafter _ (mem_append_right _ mem_cons_self)
        refine .inr ⟨ih.mpr ⟨before, after', h, fun x hx => ?_⟩, hlast⟩
        exact hafter x (mem_append_left _ hx)
      · exact .inl rfl

theorem latest_eq_some {changes : List Change} : latest k changes = some c ↔
    ∃ before after, changes = before ++ c :: after ∧ logicalKeyOf c = k ∧
      ∀ x ∈ after, logicalKeyOf x ≠ k := by
  rw [latest, lastSome_eq_some]
  constructor
  · rintro ⟨before, a, after, hsplit, ha, hafter⟩
    obtain ⟨hkey, ha⟩ := ite_none_right_eq_some.mp ha
    cases ha
    refine ⟨before, after, hsplit, hkey, fun x hx e => ?_⟩
    have hsilent := hafter x hx
    rw [if_pos e] at hsilent
    cases hsilent
  · rintro ⟨before, after, hsplit, hkey, hafter⟩
    exact ⟨before, c, after, hsplit, if_pos hkey, fun x hx => if_neg (hafter x hx)⟩

theorem latest_compact (h : ¬Covered (stamped changes) k) :
    latest k (compact changes) = latest k (stamped changes) := by
  have hiff : ∀ c, latest k (compact changes) = some c ↔ latest k (stamped changes) = some c := by
    intro c
    refine Iff.trans ?_ latest_eq_some.symm
    constructor
    · intro hlatest
      obtain ⟨b, a, hsplit, hc, -⟩ := latest_eq_some.mp hlatest
      have hmem : c ∈ compact changes := hsplit ▸ mem_append_right _ mem_cons_self
      obtain ⟨before, after, hstamped, hafter⟩ := mem_compact.mp hmem
      exact ⟨before, after, hstamped, hc, fun x hx => hc ▸ Ne.symm (hafter x hx).1⟩
    rintro ⟨before, after, hstamped, hc, hafter⟩
    have hmem : c ∈ compact changes := by
      refine mem_compact.mpr ⟨before, after, hstamped, fun x hx => ⟨?_, ?_⟩⟩
      · exact fun e => hafter x hx (e.symm.trans hc)
      · by_contra hcovers
        exact h ⟨before, c, after, hstamped, hc, hafter, x, hx, (Bool.not_eq_false _).mp hcovers⟩
    obtain ⟨b, a, hsplit⟩ := append_of_mem hmem
    refine latest_eq_some.mpr ⟨b, a, hsplit, hc, fun x hx e => ?_⟩
    have hnodup := nodup_compact changes
    rw [hsplit, map_append, map_cons] at hnodup
    have hnot := (nodup_cons.mp (nodup_append.mp hnodup).2.1).1
    exact hnot (mem_map.mpr ⟨x, hx, e.trans hc.symm⟩)
  exact Option.ext hiff

/-! ## The log of the relay -/

section push
variable {κ ν δ : Type} [Blob δ] {db db' : Db δ} {a : Nat} {quota : Int} {data : δ}
  {requests : List (Int × List (PushItem δ))} {items : List (PushItem δ)} {itemKey : String}
  {out : PushOut} {cipher : SyncCipher κ ν δ} {keys : SessionKeys κ} {op : Change → Op}
  {changes : List Change}

/-- Requests to push items, one after the other, with the times at which the relay gets them. -/
def pushRequests (a : Nat) (quota : Int) :
    Db δ → List (Int × List (PushItem δ)) → Except AccountError (Db δ)
  | db, [] => .ok db
  | db, (now, items) :: requests =>
    match pushSql db a items quota now with
    | .error e => .error e
    | .ok (_, db) => pushRequests a quota db requests

/-- The log has an item under a key. -/
def Holds (db : Db δ) (a : Nat) (itemKey : String) (data : δ) : Prop :=
  ∃ r ∈ db.rowsOf a, r.key = itemKey ∧ r.data = data

def dataUnder (itemKey : String) (item : PushItem δ) : Option δ :=
  if item.key = itemKey then some item.data else none

omit [Blob δ] in
theorem lastSome_dataUnder (hn : (items.map (·.key)).Nodup) :
    lastSome (dataUnder itemKey) items = some data ↔
      ∃ x ∈ items, x.key = itemKey ∧ x.data = data := by
  constructor
  · intro h
    obtain ⟨x, hx, hdata⟩ := exists_mem_of_lastSome h
    obtain ⟨hkey, hdata⟩ := ite_none_right_eq_some.mp hdata
    exact ⟨x, hx, hkey, some.inj hdata⟩
  rintro ⟨x, hx, hkey, rfl⟩
  obtain ⟨before, after, rfl⟩ := append_of_mem hx
  refine lastSome_eq_some.mpr ⟨before, x, after, rfl, if_pos hkey, fun y hy => if_neg fun e => ?_⟩
  rw [map_append, map_cons] at hn
  have hnot := (nodup_cons.mp (nodup_append.mp hn).2.1).1
  exact hnot (mem_map.mpr ⟨y, hy, e.trans hkey.symm⟩)

omit [Blob δ] in
theorem lastSome_dataUnder_eq_none :
    lastSome (dataUnder itemKey) items = none ↔ ∀ x ∈ items, x.key ≠ itemKey := by
  refine lastSome_eq_none.trans (forall_congr' fun x => forall_congr' fun _ => ?_)
  exact ite_eq_right_iff.trans ⟨fun h e => (by cases h e), fun h e => absurd e h⟩

theorem holds_pushSql (hn : (items.map (·.key)).Nodup)
    (h : pushSql db a items quota now = .ok (out, db')) : Holds db' a itemKey data ↔
      lastSome (dataUnder itemKey) items = some data ∨
        lastSome (dataUnder itemKey) items = none ∧ Holds db a itemKey data := by
  obtain ⟨hold, hnew⟩ := pushSql_rows hn h
  rw [lastSome_dataUnder hn, lastSome_dataUnder_eq_none]
  constructor
  · rintro ⟨r, hr, rfl, rfl⟩
    rcases pushSql_source h hr with ⟨x, hx, hkey, hdata, -⟩ | ⟨hr, hne⟩
    · exact .inl ⟨x, hx, hkey.symm, hdata.symm⟩
    · exact .inr ⟨hne, r, hr, rfl, rfl⟩
  · rintro (⟨x, hx, rfl, rfl⟩ | ⟨hne, r, hr, rfl, rfl⟩)
    · exact hnew x hx
    · exact ⟨r, hold r hr hne, rfl, rfl⟩

theorem holds_pushRequests (hn : ∀ r ∈ requests, (r.2.map (·.key)).Nodup)
    (h : pushRequests a quota db requests = .ok db') : Holds db' a itemKey data ↔
      lastSome (dataUnder itemKey) (requests.flatMap (·.2)) = some data ∨
        lastSome (dataUnder itemKey) (requests.flatMap (·.2)) = none ∧
          Holds db a itemKey data := by
  induction requests generalizing db with
  | nil =>
    cases h
    exact ⟨fun h => .inr ⟨rfl, h⟩, fun h => h.elim (fun h => by cases h) And.right⟩
  | cons r requests ih =>
    obtain ⟨now, items⟩ := r
    rw [pushRequests] at h
    cases hpush : pushSql db a items quota now with
    | error e =>
      rw [hpush] at h
      cases h
    | ok pushed =>
      rw [hpush] at h
      rw [ih (fun r hr => hn r (mem_cons_of_mem _ hr)) h,
        holds_pushSql (hn _ mem_cons_self) hpush, flatMap_cons, lastSome_append]
      cases lastSome (dataUnder itemKey) (requests.flatMap (·.2)) with
      | none | some data' => simp

/-- An item of the log that the device can open, and its operation -/
def Live (cipher : SyncCipher κ ν δ) (keys : SessionKeys κ) (db : Db δ) (a : Nat) (itemKey : String)
    (o : Op) : Prop :=
  ∃ r ∈ db.rowsOf a, r.key = itemKey ∧ openSyncItem cipher keys.encKey r = some o

/-- The item that is sent for a change, where `op` says what is built for it. -/
def Seals (cipher : SyncCipher κ ν δ) (keys : SessionKeys κ) (op : Change → Op) (change : Change)
    (item : PushItem δ) : Prop :=
  ∃ iv, item = sealSyncItem cipher keys iv (logicalKeyOf change) (op change)

omit [Blob δ] in
theorem live_iff {o : Op} : Live cipher keys db a itemKey o ↔
    ∃ data, Holds db a itemKey data ∧ cipher.decrypt keys.encKey itemKey data = some o := by
  constructor
  · rintro ⟨r, hr, rfl, hopen⟩
    exact ⟨r.data, ⟨r, hr, rfl, rfl⟩, hopen⟩
  · rintro ⟨_, ⟨r, hr, rfl, rfl⟩, hopen⟩
    exact ⟨r, hr, rfl, hopen⟩

omit [Blob δ] in
theorem decrypt_lastSome (hsep : cipher.Separates) (hdec : cipher.Decrypts) (hseals : List.Forall₂ (Seals cipher keys op) changes items) (k : String) :
    (lastSome (dataUnder (cipher.syncKeyForLogicalKey keys.macKey k)) items).map
      (cipher.decrypt keys.encKey (cipher.syncKeyForLogicalKey keys.macKey k)) =
    (latest k changes).map fun c => some (op c) := by
  rw [← lastSome_forall₂ (f := fun c => (if logicalKeyOf c = k then some c else none).map
    fun c => some (op c)) (l := changes)]
  · exact lastSome_forall₂ (forall₂_same.mpr fun c _ => rfl)
  refine hseals.imp fun c item hseal => ?_
  obtain ⟨iv, rfl⟩ := hseal
  have hitem : (sealSyncItem cipher keys iv (logicalKeyOf c) (op c)).key =
      cipher.syncKeyForLogicalKey keys.macKey (logicalKeyOf c) := rfl
  rw [dataUnder, hitem]
  by_cases hk : logicalKeyOf c = k
  · subst hk
    have hopens := hdec keys.encKey iv
      (cipher.syncKeyForLogicalKey keys.macKey (logicalKeyOf c)) (op c)
    rw [if_pos rfl, if_pos rfl, map_some, map_some]
    exact congrArg some hopens.symm
  · rw [if_neg hk, if_neg fun e => hk (hsep _ e)]
    rfl

theorem live_pushRequests (hsep : cipher.Separates) (hdec : cipher.Decrypts)
    (hseals : List.Forall₂ (Seals cipher keys op) changes (requests.flatMap (·.2)))
    (hn : ∀ r ∈ requests, (r.2.map (·.key)).Nodup)
    (h : pushRequests a quota db requests = .ok db') (k : String) {o : Op} :
    Live cipher keys db' a (cipher.syncKeyForLogicalKey keys.macKey k) o ↔
      (latest k changes).map op = some o ∨
        latest k changes = none ∧
          Live cipher keys db a (cipher.syncKeyForLogicalKey keys.macKey k) o := by
  have hlast := decrypt_lastSome hsep hdec hseals k
  rw [live_iff, live_iff]
  simp only [holds_pushRequests hn h]
  cases hsent : lastSome (dataUnder (cipher.syncKeyForLogicalKey keys.macKey k))
      (requests.flatMap (·.2)) with
  | none =>
    rw [hsent] at hlast
    have hnone : latest k changes = none := map_eq_none_iff.mp hlast.symm
    simp [hnone]
  | some data =>
    rw [hsent] at hlast
    obtain ⟨c, hc, hopen⟩ := map_eq_some_iff.mp hlast.symm
    simp [hc, ← hopen]

theorem live_pushRequests_other (hseals : List.Forall₂ (Seals cipher keys op) changes (requests.flatMap (·.2)))
    (hn : ∀ r ∈ requests, (r.2.map (·.key)).Nodup)
    (h : pushRequests a quota db requests = .ok db')
    (hkey : ∀ k, itemKey ≠ cipher.syncKeyForLogicalKey keys.macKey k) {o : Op} :
    Live cipher keys db' a itemKey o ↔ Live cipher keys db a itemKey o := by
  have hsilent : lastSome (dataUnder itemKey) (requests.flatMap (·.2)) = none := by
    refine lastSome_dataUnder_eq_none.mpr fun x hx e => ?_
    obtain ⟨c, -, iv, rfl⟩ : ∃ c, c ∈ changes ∧ Seals cipher keys op c x := by
      obtain ⟨i, hi, rfl⟩ := mem_iff_getElem.mp hx
      have hlength := hseals.length_eq
      exact ⟨changes[i], getElem_mem _, hseals.get (by omega) hi⟩
    exact hkey _ e.symm
  rw [live_iff, live_iff]
  simp only [holds_pushRequests hn h, hsilent]
  simp

omit [Blob δ] in
theorem nodup_sealed (hsep : cipher.Separates) (hnodup : (changes.map logicalKeyOf).Nodup)
    (hseals : List.Forall₂ (Seals cipher keys op) changes items) :
    (items.map (·.key)).Nodup := by
  have hkeys : items.map (·.key) =
      (changes.map logicalKeyOf).map (cipher.syncKeyForLogicalKey keys.macKey) := by
    clear hnodup
    induction hseals with
    | nil => rfl
    | cons hseal _ ih =>
      obtain ⟨iv, rfl⟩ := hseal
      exact congrArg₂ List.cons rfl ih
  rw [hkeys]
  exact hnodup.map (hsep _)

/-- An outbox holds of every logical key at most the last change that was enqueued. When the outbox
of a sequence of local changes is pushed, in whatever requests, the log has the items that it has
after every change was pushed in a request of its own, but for messages whose chat was deleted
after them. -/
theorem compaction_faithful (cipher : SyncCipher κ ν δ) (hsep : cipher.Separates)
    (hdec : cipher.Decrypts) (keys : SessionKeys κ) (op : Change → Op) (a : Nat) (quota : Int) :
    (∀ steps, ((outboxAfter steps).map logicalKeyOf).Nodup ∧ ∀ c ∈ outboxAfter steps,
      latest (logicalKeyOf c) (steps.filterMap OutboxStep.enqueued) = some c) ∧
    ∀ (changes : List (Change × Int)) (db db₁ db₂ : Db δ)
      (single batched : List (Int × List (PushItem δ))),
      (∀ r ∈ single, r.2.length = 1) →
      List.Forall₂ (Seals cipher keys op) (stamped changes) (single.flatMap (·.2)) →
      List.Forall₂ (Seals cipher keys op) (compact changes) (batched.flatMap (·.2)) →
      pushRequests a quota db single = .ok db₁ → pushRequests a quota db batched = .ok db₂ →
      ∀ itemKey, (∀ k, Covered (stamped changes) k →
          itemKey ≠ cipher.syncKeyForLogicalKey keys.macKey k) →
        ∀ o, Live cipher keys db₂ a itemKey o ↔ Live cipher keys db₁ a itemKey o := by
  refine ⟨fun steps => ⟨nodup_outboxAfter steps, fun c hc => latest_of_mem_outboxAfter hc⟩, ?_⟩
  intro changes db db₁ db₂ single batched hone hsingle hbatched h₁ h₂ itemKey hcovered o
  have hn₁ : ∀ r ∈ single, (r.2.map (·.key)).Nodup := by
    intro r hr
    obtain ⟨item, hitem⟩ := length_eq_one_iff.mp (hone r hr)
    rw [hitem]
    exact nodup_singleton _
  have hn₂ : ∀ r ∈ batched, (r.2.map (·.key)).Nodup := by
    intro r hr
    refine (nodup_sealed hsep (nodup_compact changes) hbatched).sublist (List.Sublist.map _ ?_)
    exact sublist_flatten_of_mem (mem_map_of_mem hr)
  by_cases hkey : ∃ k, itemKey = cipher.syncKeyForLogicalKey keys.macKey k
  · obtain ⟨k, rfl⟩ := hkey
    rw [live_pushRequests hsep hdec hbatched hn₂ h₂, live_pushRequests hsep hdec hsingle hn₁ h₁,
      latest_compact fun h => hcovered k h rfl]
  have hother : ∀ k, itemKey ≠ cipher.syncKeyForLogicalKey keys.macKey k :=
    fun k e => hkey ⟨k, e⟩
  rw [live_pushRequests_other hbatched hn₂ h₂ hother, live_pushRequests_other hsingle hn₁ h₁ hother]

end push

local instance instBlobOutbox : Blob (String × String × Op) := ⟨fun _ => 100, fun _ => 100⟩

/-- A theme is changed twice, then a message is written and its chat deleted. -/
theorem compaction_faithful_theme :
    let keys : SessionKeys String := ⟨"e", "m"⟩
    let op : Change → Op := fun c => ⟨c.ts, "a", match c.body with
      | .storeEntry key id patch => .storeEntry key id patch
      | .store key => .store key .null
      | .chatDel peerId => .chatDel peerId
      | .msgDel peerId messageId => .msgDel peerId messageId
      | .msg peerId messageId message => .msg peerId messageId message⟩
    let light : Change := ⟨1, .storeEntry "settings" "theme" (some (.str "light"))⟩
    let dark : Change := ⟨2, .storeEntry "settings" "theme" (some (.str "dark"))⟩
    let written : Change := ⟨3, .msg "p" "m" none⟩
    let deleted : Change := ⟨4, .chatDel "p"⟩
    let changes := [(light, 0), (dark, 0), (written, 0), (deleted, 0)]
    let item := fun c : Change => sealSyncItem plainCipher keys () (logicalKeyOf c) (op c)
    let db : Db (String × String × Op) := ⟨[⟨1, "ada", "p", "h", default, "v", 0, 0⟩], [], []⟩
    (∀ steps, ((outboxAfter steps).map logicalKeyOf).Nodup ∧ ∀ c ∈ outboxAfter steps,
      latest (logicalKeyOf c) (steps.filterMap OutboxStep.enqueued) = some c) ∧
    ∃ db₁ db₂, pushRequests 1 1000 db [(20, [item light]), (21, [item dark]), (22, [item written]),
        (23, [item deleted])] = .ok db₁ ∧
      pushRequests 1 1000 db [(24, [item dark, item deleted])] = .ok db₂ ∧
      ∀ itemKey, (∀ k, Covered (stamped changes) k →
          itemKey ≠ plainCipher.syncKeyForLogicalKey keys.macKey k) →
        ∀ o, Live plainCipher keys db₂ 1 itemKey o ↔ Live plainCipher keys db₁ 1 itemKey o := by
  intro keys op light dark written deleted changes item db
  have hseals : ∀ c, Seals plainCipher keys op c (item c) := fun c => ⟨(), rfl⟩
  have hcompact : compact changes = [dark, deleted] := by decide +kernel
  obtain ⟨hbox, hpush⟩ := compaction_faithful plainCipher plainCipher_separates
    plainCipher_decrypts keys op 1 1000
  have haccepted : ∀ requests, (pushRequests 1 1000 db requests).isOk = true →
      ∃ db', pushRequests 1 1000 db requests = .ok db' := by
    intro requests h
    cases hpushed : pushRequests 1 1000 db requests with
    | ok db' => exact ⟨db', rfl⟩
    | error e =>
      rw [hpushed] at h
      cases h
  obtain ⟨db₁, h₁⟩ := haccepted [(20, [item light]), (21, [item dark]), (22, [item written]),
    (23, [item deleted])] (by decide +kernel)
  obtain ⟨db₂, h₂⟩ := haccepted [(24, [item dark, item deleted])] (by decide +kernel)
  refine ⟨hbox, db₁, db₂, h₁, h₂, hpush changes db _ _ _ _ (by simp) ?_ ?_ h₁ h₂⟩
  · exact .cons (hseals _) (.cons (hseals _) (.cons (hseals _) (.cons (hseals _) .nil)))
  · exact .cons (hseals _) (.cons (hseals _) .nil)

end Bluetalk.CloudAccount

import Bluetalk.CloudAccount.StoreEntries
import Bluetalk.CloudAccount.PullPending
import Bluetalk.CloudAccount.Push
import Bluetalk.Theory.Lww

/-!
# One entry of a device as a replica

An entry of a synced store key on one device, seen as a replica of a last-writer-wins register
(`Device.replica`): its value, the timestamp the metadata has for it and the timestamp of its pending
change. On a device whose outbox holds changes of store entries with their current values
(`Device.Settled`), a write, a batch and a pulled item do to every entry what the register says.
-/

open List

namespace Bluetalk.CloudAccount
open Storage Relay

variable {d : Device} {m : SyncMeta} {key key' id id' : String} {c : Change} {t : Int}
  {v : Option Json}

namespace Device

/-- The replica of an entry; the metadata are apart because a pull holds its own copy. -/
def replica (d : Device) (m : SyncMeta) (key id : String) : Replica Int (Option Json) where
  val := d.entry key id
  applied := m.storeEntryTs.get? (entryTsKey key id)
  pending := (d.outbox.find? fun c => logicalKeyOf c = storeEntryKey key id).map (·.ts)

/-- The outbox holds one change for each entry that waits, with the value that the entry has, and
no stored list has an id twice. -/
structure Settled (d : Device) : Prop where
  nodup : (d.outbox.map logicalKeyOf).Nodup
  changes : ∀ c ∈ d.outbox, 0 < c.ts ∧ ∃ key id, key ∈ syncedStoreKeys ∧
    ValidEntry key id (d.entry key id) ∧ c.body = .storeEntry key id (d.entry key id)
  distinct : ∀ key, DistinctIds key (d.storeValue key)

theorem mem_pending (h : (d.outbox.map logicalKeyOf).Nodup) :
    t ∈ (d.replica m key id).pending ↔
      ∃ c ∈ d.outbox, logicalKeyOf c = storeEntryKey key id ∧ c.ts = t := by
  simp only [replica, Option.mem_def, Option.map_eq_some_iff]
  constructor
  · rintro ⟨c, hc, ht⟩
    exact ⟨c, mem_of_find?_eq_some hc, by simpa using find?_some hc, ht⟩
  rintro ⟨c, hc, hk, ht⟩
  refine ⟨c, ?_, ht⟩
  cases hfind : d.outbox.find? fun c => logicalKeyOf c = storeEntryKey key id with
  | none => simpa [hk] using find?_eq_none.mp hfind c hc
  | some c' =>
    have hk' : logicalKeyOf c' = storeEntryKey key id := by simpa using find?_some hfind
    rw [inj_on_of_nodup_map h (mem_of_find?_eq_some hfind) hc (hk'.trans hk.symm)]

theorem pending_ext {o : Option Int} (h : (d.outbox.map logicalKeyOf).Nodup)
    (ho : ∀ t, t ∈ o ↔ ∃ c ∈ d.outbox, logicalKeyOf c = storeEntryKey key id ∧ c.ts = t) :
    (d.replica m key id).pending = o :=
  Option.ext fun t => (mem_pending h).trans (ho t).symm

theorem entriesOfStore_storeDefault : entriesOfStore key (storeDefault key) =
    entriesOfStore key .null := by
  simp only [entriesOfStore, storeDefault]
  split
  · next h => subst h; rfl
  split
  · next h =>
    have : key = "contacts" ∨ key = "groups" := by simpa [arrayStoreKeys] using h
    simp [this, arrayItems]
  · next h =>
    have : ¬(key = "contacts" ∨ key = "groups") := by simpa [arrayStoreKeys] using h
    simp [this, objectFields]

theorem entry_eq : d.entry key id = (entriesOfStore key (d.storeValue key)).get? id := by
  simp only [entry, entries, storeValue]
  cases d.store.get? key with
  | none => simp [entriesOfStore_storeDefault]
  | some v => rfl

/-! ## A write -/

section write
variable {w : LocalWrite}

/-- What a write must be to be seen by the sync as what it is: it is stamped with the time of a
clock, what it leaves unsynced is what it changes, and the value it stores has no id twice. -/
structure Tracked (d : Device) (w : LocalWrite) : Prop where
  ts : 0 < w.now
  unsynced : ∀ id, d.Unsynced w id ↔ d.Changes w id
  named : ∀ id, d.Changes w id → id ≠ ""
  distinct : DistinctIds w.key ((d.write w.key w.value).storeValue w.key)

theorem localWrite_entry : (d.localWrite w).entry key id = (d.write w.key w.value).entry key id := by
  simp only [localWrite]
  split <;> rfl

theorem localWrite_storeValue :
    (d.localWrite w).storeValue key = (d.write w.key w.value).storeValue key := by
  simp only [localWrite]
  split <;> rfl

@[simp] theorem localWrite_syncMeta : (d.localWrite w).syncMeta = d.syncMeta := by
  simp only [localWrite]
  split <;> rfl

@[simp] theorem localWrite_origin : (d.localWrite w).origin = d.origin := by
  simp only [localWrite]
  split <;> rfl

@[simp] theorem localWrite_lastSeq : (d.localWrite w).lastSeq = d.lastSeq := by
  simp only [localWrite]
  split <;> rfl

theorem write_storeValue_ne (h : key ≠ w.key) :
    (d.write w.key w.value).storeValue key = d.storeValue key := by
  cases hv : w.value <;> simp [storeValue, write, h]

theorem validEntry_of_changes (h : d.Changes w id) (hid : id ≠ "") :
    ValidEntry w.key id ((d.write w.key w.value).entry w.key id) := by
  cases hnew : (d.write w.key w.value).entry w.key id with
  | some v => exact validEntry_of_get? hid hnew
  | none =>
    -- the entry was there before
    rw [Changes, hnew, ne_comm, Option.ne_none_iff_exists'] at h
    obtain ⟨v, hv⟩ := h
    exact ⟨hid, (validEntry_of_get? hid hv).shared, by simp⟩

variable (m id) in
theorem replica_localWrite (H : d.Settled) (hw : w.key ∈ syncedStoreKeys → d.Tracked w)
    (hkey : key ∈ syncedStoreKeys) :
    (d.localWrite w).replica m key id =
      if key = w.key ∧ d.Changes w id then
        (d.replica m key id).write ⟨w.now, (d.write w.key w.value).entry key id⟩
      else d.replica m key id := by
  have hn := nodup_localWrite (w := w) H.nodup
  by_cases hwkey : w.key ∈ syncedStoreKeys
  · have hmem := fun c => mem_localWrite (c := c) hwkey H.nodup
    simp only [(hw hwkey).unsynced] at hmem
    split
    · next hch =>
      obtain ⟨rfl, hch⟩ := hch
      have hpend : ((d.localWrite w).replica m w.key id).pending = some w.now := by
        refine pending_ext hn fun t => ?_
        simp only [hmem, Option.mem_def, Option.some.injEq]
        constructor
        · rintro rfl
          exact ⟨_, .inl ⟨id, hch, rfl⟩, rfl, rfl⟩
        · rintro ⟨c, ⟨id', -, rfl⟩ | ⟨hc, hrest⟩, hk, rfl⟩
          · rfl
          · exact absurd hk (hrest id hch)
      rw [replica, Replica.mk.injEq]
      exact ⟨localWrite_entry, rfl, hpend⟩
    · next hch =>
      have hpend : ((d.localWrite w).replica m key id).pending = (d.replica m key id).pending := by
        refine pending_ext hn fun t => (mem_pending H.nodup).trans ?_
        simp only [hmem]
        constructor
        · rintro ⟨c, hc, hk, ht⟩
          refine ⟨c, .inr ⟨hc, fun id' hid' e => hch ?_⟩, hk, ht⟩
          have := (storeEntryKey_inj (not_mem_syncedStoreKey hkey)
            (not_mem_syncedStoreKey hwkey)).mp (hk.symm.trans e)
          exact ⟨this.1, this.2 ▸ hid'⟩
        rintro ⟨c, ⟨id', hid', rfl⟩ | ⟨hc, -⟩, hk, ht⟩
        · have := (storeEntryKey_inj (not_mem_syncedStoreKey hwkey)
            (not_mem_syncedStoreKey hkey)).mp hk
          exact absurd ⟨this.1.symm, this.2 ▸ hid'⟩ hch
        · exact ⟨c, hc, hk, ht⟩
      rw [replica, replica, Replica.mk.injEq]
      refine ⟨?_, rfl, hpend⟩
      rw [localWrite_entry]
      by_cases hk : key = w.key
      · subst hk
        simpa [Changes] using hch
      · exact entry_write_ne hk
  · have hne : key ≠ w.key := fun e => hwkey (e ▸ hkey)
    simp only [hne, false_and, if_false]
    rw [replica, replica, Replica.mk.injEq]
    refine ⟨localWrite_entry.trans (entry_write_ne hne), rfl, ?_⟩
    simp [localWrite, hwkey, write]

theorem Settled.localWrite (H : d.Settled) (hw : w.key ∈ syncedStoreKeys → d.Tracked w) :
    (d.localWrite w).Settled where
  nodup := nodup_localWrite H.nodup
  changes c hc := by
    simp only [localWrite_entry]
    by_cases hwkey : w.key ∈ syncedStoreKeys
    · have hw := hw hwkey
      rw [mem_localWrite hwkey H.nodup] at hc
      simp only [hw.unsynced] at hc
      rcases hc with ⟨id, hch, rfl⟩ | ⟨hc, hrest⟩
      · exact ⟨hw.ts, w.key, id, hwkey, validEntry_of_changes hch (hw.named id hch), rfl⟩
      obtain ⟨hts, key, id, hkey, hvalid, hbody⟩ := H.changes c hc
      -- a change that stays is one of an entry that the write leaves as it is
      have hsame : (d.write w.key w.value).entry key id = d.entry key id := by
        by_cases hk : key = w.key
        · subst hk
          by_contra hch
          exact hrest id hch (by rw [logicalKeyOf, hbody]; rfl)
        · exact entry_write_ne hk
      exact ⟨hts, key, id, hkey, hsame ▸ hvalid, hsame ▸ hbody⟩
    · have hc : c ∈ d.outbox := by simpa [Device.localWrite, hwkey, write] using hc
      obtain ⟨hts, key, id, hkey, hvalid, hbody⟩ := H.changes c hc
      have hsame : (d.write w.key w.value).entry key id = d.entry key id :=
        entry_write_ne fun e => hwkey (e ▸ hkey)
      exact ⟨hts, key, id, hkey, hsame ▸ hvalid, hsame ▸ hbody⟩
  distinct key := by
    rw [localWrite_storeValue]
    by_cases hk : key = w.key
    · subst hk
      intro harray
      -- the keys that hold lists are synced
      have hsynced : w.key ∈ syncedStoreKeys := by
        have : w.key = "contacts" ∨ w.key = "groups" := by simpa [arrayStoreKeys] using harray
        rcases this with h | h <;> rw [h] <;> decide
      exact (hw hsynced).distinct harray
    · rw [write_storeValue_ne hk]
      exact H.distinct key

end write

/-! ## A batch -/

section push
variable {δ : Type} {sent : List (SentChange δ)}

theorem Settled.sublist {d' : Device} (H : d.Settled) (hstore : d'.store = d.store)
    (hbox : d'.outbox.Sublist d.outbox) : d'.Settled where
  nodup := H.nodup.sublist (hbox.map _)
  changes c hc := by
    simp only [entry, entries, hstore]
    exact H.changes c (hbox.subset hc)
  distinct key := by
    simp only [storeValue, hstore]
    exact H.distinct key

theorem logicalKeyOf_settled (H : d.Settled) (hc : c ∈ d.outbox) :
    ∃ key id, key ∈ syncedStoreKeys ∧ id ≠ "" ∧ logicalKeyOf c = storeEntryKey key id ∧
      c.body = .storeEntry key id (d.entry key id) := by
  obtain ⟨-, key, id, hkey, hvalid, hbody⟩ := H.changes c hc
  exact ⟨key, id, hkey, hvalid.named, by rw [logicalKeyOf, hbody]; rfl, hbody⟩

theorem entryTsKey_inj :
    entryTsKey key id = entryTsKey key' id' ↔ storeEntryKey key id = storeEntryKey key' id' := by
  have : ∀ key id, storeEntryKey key id = "store:" ++ entryTsKey key id := by
    simp [storeEntryKey, entryTsKey, String.append_assoc]
  rw [this, this, String.append_right_inj]

variable (m key' id') in
theorem storeEntryTs_entry {op : Op} {patch : Option Json}
    (hbody : op.body = .storeEntry key id patch) (hkey : key ∈ syncedStoreKeys) (hid : id ≠ "") :
    (appliedMetaAfterOp m op).storeEntryTs.get? (entryTsKey key' id') =
      if storeEntryKey key id = storeEntryKey key' id' then some op.ts
      else m.storeEntryTs.get? (entryTsKey key' id') := by
  have hne : key ≠ "" := by rintro rfl; revert hkey; decide
  simp only [appliedMetaAfterOp, hbody, hne, hid, or_self, if_false, JsObject.get?_set,
    entryTsKey_inj, eq_comm (a := storeEntryKey key' id')]

theorem storeEntryTs_book (H : d.Settled) (hc : c ∈ d.outbox) :
    (book d m c).storeEntryTs.get? (entryTsKey key id) =
      if logicalKeyOf c = storeEntryKey key id then some c.ts
      else m.storeEntryTs.get? (entryTsKey key id) := by
  obtain ⟨key', id', hkey', hid', hk, hbody⟩ := logicalKeyOf_settled H hc
  simp only [book, hbody]
  rw [storeEntryTs_entry m key id rfl hkey' hid', hk]

variable (m key id) in
theorem storeEntryTs_foldl_book (H : d.Settled)
    (hsub : ∀ x ∈ sent, x.change ∈ d.outbox)
    (hn : (sent.map fun x => logicalKeyOf x.change).Nodup) :
    (sent.foldl (fun m x => book d m x.change) m).storeEntryTs.get? (entryTsKey key id) =
      match sent.find? fun x => logicalKeyOf x.change = storeEntryKey key id with
      | some x => some x.change.ts
      | none => m.storeEntryTs.get? (entryTsKey key id) := by
  induction sent generalizing m with
  | nil => rfl
  | cons x sent ih =>
    rw [map_cons, nodup_cons] at hn
    rw [foldl_cons, ih _ (fun y hy => hsub y (mem_cons_of_mem _ hy)) hn.2,
      storeEntryTs_book H (hsub x (mem_cons_self ..)), find?_cons]
    by_cases hx : logicalKeyOf x.change = storeEntryKey key id
    · have hlater : (sent.find? fun y => logicalKeyOf y.change = storeEntryKey key id) = none := by
        rw [find?_eq_none]
        intro y hy
        rw [decide_eq_true_eq]
        intro e
        exact hn.1 (mem_map.mpr ⟨y, hy, e.trans hx.symm⟩)
      simp [hlater, hx]
    · simp [hx]

/-- The device after a batch was taken. -/
def afterPush (d : Device) (sent : List (SentChange δ)) : Device :=
  { d.removeSent (sent.map (·.change)) with
    syncMeta := sent.foldl (fun m x => book d m x.change) d.syncMeta }

theorem buildOp_settled (findMessage : String → String → Option Message) (now : Int)
    (H : d.Settled) (hc : c ∈ d.outbox) : ∃ key id, key ∈ syncedStoreKeys ∧
      ValidEntry key id (d.entry key id) ∧ logicalKeyOf c = storeEntryKey key id ∧
      buildOp d findMessage now c = some ⟨c.ts, d.origin, .storeEntry key id (d.entry key id)⟩ := by
  obtain ⟨hts, key, id, hkey, hvalid, hbody⟩ := H.changes c hc
  refine ⟨key, id, hkey, hvalid, by rw [logicalKeyOf, hbody]; rfl, ?_⟩
  have hne : c.ts ≠ 0 := by omega
  simp only [buildOp, hbody]
  cases hentry : d.entry key id with
  | none => simp [hne]
  | some v => simp [hne, hentry]

theorem mem_afterPush (H : d.Settled) (hsub : (sent.map (·.change)).Sublist d.outbox) :
    c ∈ (d.afterPush sent).outbox ↔ c ∈ d.outbox ∧ c ∉ sent.map (·.change) := by
  simp only [afterPush, removeSent, mem_removeSentFromOutbox]
  refine and_congr_right fun hc => ⟨fun h hmem => h c hmem rfl rfl, fun h x hx hk hts => ?_⟩
  have : x = c := inj_on_of_nodup_map H.nodup (hsub.subset hx) hc hk
  exact h (this ▸ hx)

theorem Settled.afterPush (H : d.Settled) : (d.afterPush sent).Settled :=
  H.sublist rfl filter_sublist

variable (key id) in
theorem replica_afterPush (H : d.Settled) (hsub : (sent.map (·.change)).Sublist d.outbox) :
    (d.afterPush sent).replica (d.afterPush sent).syncMeta key id =
      if ∃ x ∈ sent, logicalKeyOf x.change = storeEntryKey key id then
        (d.replica d.syncMeta key id).sent
      else d.replica d.syncMeta key id := by
  have hmem : ∀ x ∈ sent, x.change ∈ d.outbox := fun x hx =>
    hsub.subset (mem_map.mpr ⟨x, hx, rfl⟩)
  have hn : (sent.map fun x => logicalKeyOf x.change).Nodup := by
    simpa [Function.comp_def] using H.nodup.sublist (hsub.map logicalKeyOf)
  have H' : (d.afterPush sent).Settled := H.afterPush
  have hn' := H'.nodup
  have hmeta := storeEntryTs_foldl_book d.syncMeta key id H hmem hn
  split
  · next hx =>
    obtain ⟨x, hx, hk⟩ := hx
    have hfind : (sent.find? fun y => logicalKeyOf y.change = storeEntryKey key id) = some x := by
      cases hf : sent.find? fun y => logicalKeyOf y.change = storeEntryKey key id with
      | none => simpa [hk] using find?_eq_none.mp hf x hx
      | some y =>
        have hky : logicalKeyOf y.change = storeEntryKey key id := by simpa using find?_some hf
        rw [inj_on_of_nodup_map hn (mem_of_find?_eq_some hf) hx (hky.trans hk.symm)]
    have hpend : x.change.ts ∈ (d.replica d.syncMeta key id).pending :=
      (mem_pending H.nodup).mpr ⟨x.change, hmem x hx, hk, rfl⟩
    rw [replica, Replica.sent, Option.mem_def.mp hpend, Replica.mk.injEq]
    refine ⟨rfl, by rw [Device.afterPush, hmeta, hfind], pending_ext (m := d.syncMeta) hn' fun t => ?_⟩
    simp only [mem_afterPush H hsub, Option.mem_def, reduceCtorEq, false_iff, not_exists, not_and]
    rintro c ⟨hc, hnot⟩ hck -
    have : c = x.change := inj_on_of_nodup_map H.nodup hc (hmem x hx) (hck.trans hk.symm)
    exact hnot (mem_map.mpr ⟨x, hx, this.symm⟩)
  · next hx =>
    have hfind : (sent.find? fun y => logicalKeyOf y.change = storeEntryKey key id) = none := by
      rw [find?_eq_none]
      intro y hy
      rw [decide_eq_true_eq]
      exact fun e => hx ⟨y, hy, e⟩
    rw [replica, replica, Replica.mk.injEq]
    refine ⟨rfl, by rw [Device.afterPush, hmeta, hfind], ?_⟩
    refine pending_ext (m := d.syncMeta) hn' fun t => (mem_pending (m := d.syncMeta) H.nodup).trans ?_
    simp only [mem_afterPush H hsub]
    constructor
    · rintro ⟨c, hc, hk, ht⟩
      refine ⟨c, ⟨hc, fun hcs => ?_⟩, hk, ht⟩
      obtain ⟨x, hxs, rfl⟩ := mem_map.mp hcs
      exact hx ⟨x, hxs, hk⟩
    · rintro ⟨c, ⟨hc, -⟩, hk, ht⟩
      exact ⟨c, hc, hk, ht⟩

end push
end Device

/-! ## A pulled item -/

section pull
variable {δ : Type} {env : PullEnv δ} {st st' : PullState δ} {item : SyncRow δ}
  {items : List (SyncRow δ)} {op : Op} {patch : Option Json}

structure CarriesEntry (openItem : SyncRow δ → Option Op) (item : SyncRow δ) (op : Op)
    (key id : String) (patch : Option Json) : Prop where
  opens : openItem item = some op
  body : op.body = .storeEntry key id patch
  synced : key ∈ syncedStoreKeys
  valid : ValidEntry key id patch
  ts : 0 < op.ts

theorem CarriesEntry.logicalKey {openItem : SyncRow δ → Option Op}
    (h : CarriesEntry openItem item op key id patch) :
    logicalKeyOfOp op = storeEntryKey key id := by
  have hne : key ≠ "" := by
    rintro rfl
    have := h.synced
    revert this
    decide
  simp [logicalKeyOfOp, h.body, hne, h.valid.named]

theorem pendingTsFor_le {box : List Change} {k : String} {n : Int} (hn : 0 ≤ n) :
    pendingTsFor box k ≤ n ↔ ∀ c ∈ box, logicalKeyOf c = k → c.ts ≤ n := by
  have hfold : ∀ m, box.foldl (fun m c => if logicalKeyOf c = k then max m c.ts else m) m ≤ n ↔
      m ≤ n ∧ ∀ c ∈ box, logicalKeyOf c = k → c.ts ≤ n := by
    induction box with
    | nil => simp
    | cons c box ih =>
      intro m
      rw [foldl_cons, ih, forall_mem_cons]
      by_cases hc : logicalKeyOf c = k
      · simp [hc, and_assoc]
      · simp [hc]
  rw [pendingTsFor, hfold]
  simp [hn]

/-- The pull may drop the pending change of an entry for an item of another device that is as new,
and for no other. -/
def DropsRightly (d : Device) (item : SyncRow δ) (op : Op) : Prop :=
  ∀ c ∈ d.outbox, logicalKeyOf c = logicalKeyOfOp op →
    (c.ts ≤ remoteTs item op ↔ op.origin ≠ d.origin ∧ c.ts ≤ op.ts)

/-- A contact that comes in is stored as it is. -/
def KeepsIncoming (d : Device) (key id : String) (patch : Option Json) : Prop :=
  key = "contacts" → ∀ e ∈ d.entry key id, ∀ v ∈ patch, mergeContactIdentity e v = v

variable (m key' id') in
theorem replica_dropForItem (H : d.Settled) (hitem : CarriesEntry env.openItem item op key id patch)
    (hdrop : DropsRightly d item op) (hkey' : key' ∈ syncedStoreKeys) :
    (({ d with outbox := dropForItem d.outbox item op } : Device).replica m key' id').pending =
      if key' = key ∧ id' = id ∧ op.origin ≠ d.origin then
        (d.replica m key' id').pending.filter fun t => op.ts < t
      else (d.replica m key' id').pending := by
  have hn : ((dropForItem d.outbox item op).map logicalKeyOf).Nodup :=
    H.nodup.sublist (List.Sublist.map _ (by
      simp only [dropForItem]
      split
      · exact List.Sublist.refl _
      · exact filter_sublist))
  refine Device.pending_ext hn fun t => ?_
  simp only [mem_dropForItem, hitem.logicalKey]
  have hsame : storeEntryKey key' id' = storeEntryKey key id ↔ key' = key ∧ id' = id :=
    storeEntryKey_inj (not_mem_syncedStoreKey hkey') (not_mem_syncedStoreKey hitem.synced)
  split
  · next h =>
    obtain ⟨rfl, rfl, horigin⟩ := h
    simp only [Option.mem_filter_iff, Device.mem_pending H.nodup, decide_eq_true_eq]
    constructor
    · rintro ⟨⟨c, hc, hk, rfl⟩, hlt⟩
      refine ⟨c, ⟨hc, fun hle => ?_⟩, hk, rfl⟩
      have := ((hdrop c hc (hk.trans hitem.logicalKey.symm)).mp hle.2).2
      omega
    rintro ⟨c, ⟨hc, hkept⟩, hk, rfl⟩
    refine ⟨⟨c, hc, hk, rfl⟩, ?_⟩
    have hdrop := hdrop c hc (hk.trans hitem.logicalKey.symm)
    by_contra hle
    exact hkept ⟨hk.symm, hdrop.mpr ⟨horigin, by omega⟩⟩
  · next h =>
    rw [Device.mem_pending H.nodup]
    constructor
    · rintro ⟨c, hc, hk, rfl⟩
      refine ⟨c, ⟨hc, fun hle => h ?_⟩, hk, rfl⟩
      have hck := hle.1.symm
      have := hsame.mp (hk.symm.trans hck)
      exact ⟨this.1, this.2, ((hdrop c hc (hck.trans hitem.logicalKey.symm)).mp hle.2).1⟩
    · rintro ⟨c, ⟨hc, -⟩, hk, rfl⟩
      exact ⟨c, hc, hk, rfl⟩

theorem entry_set (d' : Device) (hcarries : CarriesEntry env.openItem item op key id patch)
    (hd : ∀ key, DistinctIds key (d.storeValue key)) (hkeep : KeepsIncoming d key id patch)
    (hstore : d'.store =
      d.store.set key (applyStoreEntryToValue key (d.storeValue key) id patch)) :
    (∀ key', DistinctIds key' (d'.storeValue key')) ∧ ∀ key' id',
      d'.entry key' id' = if key' = key ∧ id' = id then patch else d.entry key' id' := by
  have hvalue : ∀ key', d'.storeValue key' = if key' = key then
      applyStoreEntryToValue key (d.storeValue key) id patch else d.storeValue key' := by
    intro key'
    simp only [Device.storeValue, hstore, JsObject.get?_set]
    split <;> rfl
  have happly := get?_applyStoreEntryToValue hcarries.valid (hd key) fun hk e he =>
    hkeep hk e (Device.entry_eq ▸ he)
  refine ⟨fun key' => ?_, fun key' id' => ?_⟩
  · rw [hvalue]
    split
    · next h => exact h ▸ happly.1
    · exact hd key'
  rw [Device.entry_eq, hvalue]
  by_cases hk : key' = key
  · subst hk
    simp only [if_true, true_and, happly.2, Device.entry_eq]
  · simp only [hk, if_false, false_and, Device.entry_eq]

/-- What an item that carries an entry does: the entry receives it unless it comes from the device
itself, every other entry stays as it is. -/
structure Received (st st' : PullState δ) (op : Op) (key id : String) (patch : Option Json) :
    Prop where
  settled : st'.dev.Settled
  origin : st'.dev.origin = st.dev.origin
  outbox : st'.dev.outbox ⊆ st.dev.outbox
  appliedOps : ∀ x ∈ st'.appliedOps, x ∈ st.appliedOps ∨ x = op
  replica : ∀ key' id', key' ∈ syncedStoreKeys → st'.dev.replica st'.syncMeta key' id' =
    if key' = key ∧ id' = id ∧ op.origin ≠ st.dev.origin then
      (st.dev.replica st.syncMeta key' id').receive ⟨op.ts, patch⟩
    else st.dev.replica st.syncMeta key' id'

theorem shouldApplyStoreEntry_iff {r : Replica Int (Option Json)} (hts : 0 < op.ts)
    (hn : (d.outbox.map logicalKeyOf).Nodup) (hr : r.applied = m.storeEntryTs.get? (entryTsKey key id))
    (hpend : (d.replica m key id).pending = r.pending.filter fun t => op.ts < t) :
    shouldApplyStoreEntry op.ts (storeEntryAppliedTs m key id)
        (pendingTsFor d.outbox (storeEntryKey key id)) = true ↔
      (r.pending.filter fun t => op.ts < t) = none ∧ ∀ t ∈ r.applied, t ≤ op.ts := by
  rw [shouldApplyStoreEntry, Bool.and_eq_true, decide_eq_true_eq, decide_eq_true_eq,
    pendingTsFor_le hts.le, ← hpend]
  refine and_congr ⟨fun h => ?_, fun h c hc hk => ?_⟩ ?_
  · -- what was left is newer than the item
    refine Option.eq_none_iff_forall_not_mem.mpr fun t ht => ?_
    obtain ⟨c, hc, hk, rfl⟩ := (Device.mem_pending hn).mp ht
    rw [hpend, Option.mem_filter_iff, decide_eq_true_eq] at ht
    have := h c hc hk
    omega
  · have : c.ts ∈ (d.replica m key id).pending := (Device.mem_pending hn).mpr ⟨c, hc, hk, rfl⟩
    rw [h] at this
    cases this
  · rw [hr, storeEntryAppliedTs]
    cases m.storeEntryTs.get? (entryTsKey key id) with
    | none => simp [hts.le]
    | some t => simp

theorem processItem_entry (hitem : CarriesEntry env.openItem item op key id patch) (H : st.dev.Settled)
    (horigin : st.dev.origin ≠ "") (hdrop : DropsRightly st.dev item op)
    (hkeep : op.origin ≠ st.dev.origin → KeepsIncoming st.dev key id patch) :
    ∃ st', processItem env st item = .ok st' ∧ Received st st' op key id patch := by
  set d₁ : Device := { st.dev with outbox := dropForItem st.dev.outbox item op } with hd₁
  have hsub : (dropForItem st.dev.outbox item op).Sublist st.dev.outbox := by
    simp only [dropForItem]
    split
    · exact List.Sublist.refl _
    · exact filter_sublist
  have H₁ : d₁.Settled := H.sublist rfl hsub
  have hpend := fun key' id' (hkey' : key' ∈ syncedStoreKeys) =>
    replica_dropForItem st.syncMeta key' id' H hitem hdrop hkey'
  simp only [processItem, hitem.opens, shouldSkipOwnOrigin]
  by_cases hown : op.origin = st.dev.origin
  · simp only [horigin, hown, ne_eq, not_false_iff, decide_true, Bool.and_self, if_true]
    refine ⟨_, rfl, H₁, rfl, hsub.subset, fun x hx => .inl hx, fun key' id' hkey' => ?_⟩
    simp only [hown, ne_eq, not_true_eq_false, and_false, if_false]
    have := hpend key' id' hkey'
    simp only [hown, ne_eq, not_true_eq_false, and_false, if_false] at this
    rw [Device.replica, Device.replica, Replica.mk.injEq]
    exact ⟨rfl, rfl, this⟩
  simp only [hown, ne_eq, not_false_iff, and_true] at hpend
  have hself := hpend key id hitem.synced
  simp only [and_self, if_true] at hself
  have hcheck := shouldApplyStoreEntry_iff (r := st.dev.replica st.syncMeta key id) hitem.ts
    H₁.nodup rfl hself
  have hguard : ¬(key ∉ syncedStoreKeys ∨ id = "") := not_or.mpr
    ⟨fun h => h hitem.synced, hitem.valid.named⟩
  simp only [hown, decide_false, Bool.and_false, Bool.false_eq_true, if_false, applyOp, hitem.body,
    hitem.logicalKey, hguard, pure, Except.pure]
  cases happly : shouldApplyStoreEntry op.ts (storeEntryAppliedTs st.syncMeta key id)
      (pendingTsFor (dropForItem st.dev.outbox item op) (storeEntryKey key id)) with
  | true =>
    have hcond := hcheck.mp happly
    let merged := applyStoreEntryToValue key (st.dev.storeValue key) id patch
    obtain ⟨hdistinct, hentry⟩ := entry_set { d₁ with store := st.dev.store.set key merged }
      hitem H.distinct (hkeep hown) rfl
    refine ⟨_, rfl, ⟨H₁.nodup, fun c hc => ?_, hdistinct⟩, rfl, hsub.subset, fun x hx => ?_, ?_⟩
    · -- nothing is left for the entry itself
      obtain ⟨hts, key', id', hkey', hvalid, hbody⟩ := H₁.changes c hc
      have hne : ¬(key' = key ∧ id' = id) := by
        rintro ⟨rfl, rfl⟩
        have hk : logicalKeyOf c = storeEntryKey key' id' := by rw [logicalKeyOf, hbody]; rfl
        have := (Device.mem_pending (m := st.syncMeta) H₁.nodup).mpr ⟨c, hc, hk, rfl⟩
        rw [hself, hcond.1] at this
        cases this
      have hsame := (hentry key' id').trans (if_neg hne)
      exact ⟨hts, key', id', hkey', hsame ▸ hvalid, hsame ▸ hbody⟩
    · simpa using hx
    · intro key' id' hkey'
      have hkeys : storeEntryKey key id = storeEntryKey key' id' ↔ key' = key ∧ id' = id := by
        rw [storeEntryKey_inj (not_mem_syncedStoreKey hitem.synced) (not_mem_syncedStoreKey hkey'),
          eq_comm, eq_comm (a := id)]
      have hts := Device.storeEntryTs_entry st.syncMeta key' id' hitem.body
        hitem.synced hitem.valid.named
      simp only [hkeys] at hts
      by_cases he : key' = key ∧ id' = id
      · obtain ⟨rfl, rfl⟩ := he
        simp only [hown, ne_eq, not_false_iff, and_self, if_true] at hts hentry ⊢
        rw [Replica.receive, if_pos hcond, Device.replica, Replica.mk.injEq]
        exact ⟨(hentry key' id').trans (if_pos ⟨rfl, rfl⟩), hts, hself.trans hcond.1⟩
      have he' : ¬(key' = key ∧ id' = id ∧ op.origin ≠ st.dev.origin) := fun h => he ⟨h.1, h.2.1⟩
      rw [if_neg he', Device.replica, Device.replica, Replica.mk.injEq]
      exact ⟨(hentry key' id').trans (if_neg he), hts.trans (if_neg he),
        (hpend key' id' hkey').trans (if_neg he)⟩
  | false =>
    have hcond : ¬(_ ∧ _) := fun h => Bool.false_ne_true (happly.symm.trans (hcheck.mpr h))
    refine ⟨_, rfl, H₁, rfl, hsub.subset, fun x hx => .inl hx, fun key' id' hkey' => ?_⟩
    by_cases he : key' = key ∧ id' = id
    · obtain ⟨rfl, rfl⟩ := he
      simp only [hown, ne_eq, not_false_iff, and_self, if_true]
      rw [Replica.receive, if_neg hcond, Device.replica, Device.replica, Replica.mk.injEq]
      exact ⟨rfl, rfl, hself⟩
    · have he' : ¬(key' = key ∧ id' = id ∧ op.origin ≠ st.dev.origin) := fun h => he ⟨h.1, h.2.1⟩
      rw [if_neg he', Device.replica, Device.replica, Replica.mk.injEq]
      exact ⟨rfl, rfl, (hpend key' id' hkey').trans (if_neg he)⟩

theorem DropsRightly.subset {d' : Device} (h : DropsRightly d item op)
    (horigin : d'.origin = d.origin) (hsub : d'.outbox ⊆ d.outbox) : DropsRightly d' item op :=
  fun c hc hk => horigin ▸ h c (hsub hc) hk

variable (env st) in
theorem processItems_entries (H : st.dev.Settled) (horigin : st.dev.origin ≠ "")
    (hitems : ∀ item ∈ items, ∃ op key id patch, CarriesEntry env.openItem item op key id patch)
    (hdistinct : items.Pairwise fun x y => ∀ op op', env.openItem x = some op →
      env.openItem y = some op' → logicalKeyOfOp op ≠ logicalKeyOfOp op')
    (hdrop : ∀ item ∈ items, ∀ op, env.openItem item = some op → DropsRightly st.dev item op)
    (hkeep : ∀ item ∈ items, ∀ op key id patch, CarriesEntry env.openItem item op key id patch →
      op.origin ≠ st.dev.origin → KeepsIncoming st.dev key id patch) :
    ∃ st', processItems env st items = .ok st' ∧ st'.dev.Settled ∧
      st'.dev.origin = st.dev.origin ∧
      (∀ x ∈ st'.appliedOps, x ∈ st.appliedOps ∨ ∃ item ∈ items, env.openItem item = some x) ∧
      (∀ key id, key ∈ syncedStoreKeys → (∀ item ∈ items, ∀ op, env.openItem item = some op →
        logicalKeyOfOp op ≠ storeEntryKey key id) →
        st'.dev.replica st'.syncMeta key id = st.dev.replica st.syncMeta key id) ∧
      ∀ item ∈ items, ∀ op key id patch, CarriesEntry env.openItem item op key id patch →
        st'.dev.replica st'.syncMeta key id =
          if op.origin ≠ st.dev.origin then
            (st.dev.replica st.syncMeta key id).receive ⟨op.ts, patch⟩
          else st.dev.replica st.syncMeta key id := by
  induction items generalizing st with
  | nil => exact ⟨st, rfl, H, rfl, fun _ h => .inl h, fun _ _ _ _ => rfl, by simp⟩
  | cons item items ih =>
    rw [pairwise_cons] at hdistinct
    obtain ⟨op, key, id, patch, hitem⟩ := hitems item (mem_cons_self ..)
    obtain ⟨st₁, hst₁, R⟩ := processItem_entry hitem H horigin
      (hdrop item (mem_cons_self ..) op hitem.opens)
      (hkeep item (mem_cons_self ..) op key id patch hitem)
    -- the entry of a later item is another one, so it is untouched yet
    have hlater : ∀ x ∈ items, ∀ op' key' id' patch', CarriesEntry env.openItem x op' key' id' patch' →
        st₁.dev.replica st₁.syncMeta key' id' = st.dev.replica st.syncMeta key' id' := by
      intro x hx op' key' id' patch' hcarries
      rw [R.replica key' id' hcarries.synced, if_neg]
      rintro ⟨rfl, rfl, -⟩
      exact hdistinct.1 x hx op op' hitem.opens hcarries.opens
        (hitem.logicalKey.trans hcarries.logicalKey.symm)
    obtain ⟨st', hst', H', horigin', happlied, hsame, hreceived⟩ := ih st₁ R.settled
      (R.origin ▸ horigin) (fun x hx => hitems x (mem_cons_of_mem _ hx)) hdistinct.2
      (fun x hx op' hop' =>
        (hdrop x (mem_cons_of_mem _ hx) op' hop').subset R.origin R.outbox)
      (fun x hx op' key' id' patch' hcarries hforeign hk e he => by
        have hentry : st₁.dev.entry key' id' = st.dev.entry key' id' :=
          congrArg Replica.val (hlater x hx op' key' id' patch' hcarries)
        rw [R.origin] at hforeign
        exact hkeep x (mem_cons_of_mem _ hx) op' key' id' patch' hcarries hforeign hk e
          (hentry ▸ he))
    refine ⟨st', ?_, H', horigin'.trans R.origin, fun x hx => ?_, fun key' id' hkey' hno => ?_, ?_⟩
    · simp only [processItems, hst₁, hst']
    · rcases happlied x hx with hx | ⟨y, hy, hopen⟩
      · rcases R.appliedOps x hx with hx | rfl
        · exact .inl hx
        · exact .inr ⟨item, mem_cons_self .., hitem.opens⟩
      · exact .inr ⟨y, mem_cons_of_mem _ hy, hopen⟩
    · rw [hsame key' id' hkey' fun x hx => hno x (mem_cons_of_mem _ hx),
        R.replica key' id' hkey', if_neg]
      rintro ⟨rfl, rfl, -⟩
      exact hno item (mem_cons_self ..) op hitem.opens hitem.logicalKey
    · intro x hx op' key' id' patch' hcarries
      rcases mem_cons.mp hx with rfl | hx
      · obtain rfl : op = op' := Option.some.inj (hitem.opens.symm.trans hcarries.opens)
        have hbody := hitem.body.symm.trans hcarries.body
        injection hbody with hk hi hp
        subst hk hi hp
        rw [hsame key id hitem.synced, R.replica key id hitem.synced]
        · simp only [true_and]
        · intro y hy op' hop' e
          exact hdistinct.1 y hy op op' hitem.opens hop' (hitem.logicalKey.trans e.symm)
      · rw [hreceived x hx op' key' id' patch' hcarries, R.origin,
          hlater x hx op' key' id' patch' hcarries]

end pull
end Bluetalk.CloudAccount

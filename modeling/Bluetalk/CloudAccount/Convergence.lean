import Bluetalk.CloudAccount.EntryReplica
import Bluetalk.Relay.SyncLogInvariants

/-!
# Devices that share an account

Any number of devices of one account, which write to their stores, push and pull in any order. The
relay stores what is pushed last; a device applies what it pulls by timestamp. Every entry then
behaves as a last-writer-wins register (`Mirrors`), as long as no push takes an older value over a
newer one, every write is tracked as what it is, and a pull neither passes over rows nor drops a
newer change of its own (`NetAllowed`); under this the devices converge (`devices_converge`).
-/

open List Option Function

namespace Bluetalk.CloudAccount
open Storage Relay

/-- `PULL_LIMIT` -/
def pullLimit : Nat := 200

/-- What the loop of a pull meets while the log rests: the second page is empty at the latest. -/
def restRounds {δ : Type} (db : Db δ) (a : Nat) : List (Round δ) :=
  List.replicate 2 ⟨true, fun after => syncPull db a (some after) (some pullLimit)⟩

structure Net (ι δ : Type) where
  db : Db δ
  dev : ι → Device
  /-- the entries that were written, each with the time of its write -/
  written : List Change

inductive NetAction (ι ν : Type)
  | write (i : ι) (w : LocalWrite)
  /-- one request of a push -/
  | push (i : ι) (iv : String → ν) (quota serverNow now : Int)
  | pull (i : ι) (uuid : Nat → String) (now : Int)

variable {ι κ ν δ : Type} [DecidableEq ι]

def changedEntries (d : Device) (w : LocalWrite) : List Change :=
  if w.key ∈ syncedStoreKeys then
    (diffStoreEntries w.key (((d.write w.key w.value).store.get? w.key).getD .null)
      (d.entries w.key)).map fun body => ⟨w.now, body⟩
  else []

def Net.setDev (s : Net ι δ) (i : ι) (d : Device) : Net ι δ :=
  { s with dev := update s.dev i d }

section
variable (cipher : SyncCipher κ ν δ) (keys : SessionKeys κ) (a : Nat)

/-- How the devices of the account open what they pull. -/
def syncEnv (uuid : Nat → String) (now : Int) : PullEnv δ :=
  ⟨openSyncItem cipher keys.encKey, uuid, now⟩

variable [Blob δ]

/-- One turn of `pushOutbox`; no message is pending, so the history is not asked for one. -/
def netPush (s : Net ι δ) (i : ι) (iv : String → ν) (quota serverNow now : Int) :
    Db δ × Device :=
  pushTurn (fun k => sealSyncItem cipher keys (iv k) k) (fun _ _ => none) a quota serverNow now s.db
    (s.dev i)

def netStep (s : Net ι δ) : NetAction ι ν → Option (Net ι δ)
  | .write i w =>
    some { s.setDev i ((s.dev i).localWrite w) with
      written := s.written ++ changedEntries (s.dev i) w }
  | .push i iv quota serverNow now =>
    let pushed := netPush cipher keys a s i iv quota serverNow now
    some { s.setDev i pushed.2 with db := pushed.1 }
  | .pull i uuid now =>
    some (s.setDev i
      (pullRemote (syncEnv cipher keys uuid now) (s.dev i) (restRounds s.db a)).dev)

/-- The steps after which every entry is still a register. -/
def NetAllowed (s : Net ι δ) : NetAction ι ν → Prop
  | .write i w => w.key ∈ syncedStoreKeys →
      (s.dev i).Tracked w ∧ ∀ c ∈ (s.dev i).outbox, ∀ id, (s.dev i).Changes w id →
        logicalKeyOf c = storeEntryKey w.key id → c.ts ≤ w.now
  | .push i iv _ _ now => ∀ c ∈ (s.dev i).outbox,
      Sendable (fun k => sealSyncItem cipher keys (iv k) k) (fun _ _ => none) now (s.dev i) c ∧
        ∀ r ∈ s.db.rowsOf a, ∀ op, openSyncItem cipher keys.encKey r = some op →
          logicalKeyOfOp op = logicalKeyOf c → op.ts ≤ c.ts
  | .pull i _ _ =>
      (beyond SyncRow.seq (s.dev i).lastSeq (s.db.rowsOf a)).length ≤ pullLimit ∧
        ∀ r ∈ beyond SyncRow.seq (s.dev i).lastSeq (s.db.rowsOf a), ∀ op,
          openSyncItem cipher keys.encKey r = some op → DropsRightly (s.dev i) r op ∧
            ∀ key id patch, op.body = .storeEntry key id patch → op.origin ≠ (s.dev i).origin →
              KeepsIncoming (s.dev i) key id patch

end

/-! ## A pull while the log rests -/

section pull
variable {db : Db δ} {a : Nat} {env : PullEnv δ} {d : Device} {st : PullState δ}

theorem finishPull_entries
    (h : ∀ op ∈ st.appliedOps, ∃ key id patch, op.body = .storeEntry key id patch) :
    finishPull env st = { st.dev with syncMeta := st.syncMeta, lastSeq := st.after } := by
  have hfold : ∀ contacts, st.appliedOps.foldl (upsertInbound env.now) contacts = contacts := by
    generalize st.appliedOps = ops at h
    induction ops with
    | nil => exact fun _ => rfl
    | cons op ops ih =>
      intro contacts
      obtain ⟨key, id, patch, hbody⟩ := h op (mem_cons_self ..)
      rw [foldl_cons, ih fun op hop => h op (mem_cons_of_mem _ hop)]
      simp only [upsertInbound, hbody]
  simp only [finishPull, hfold, if_true]

theorem syncPull_limit {after : Nat} :
    syncPull db a (some after) (some pullLimit) = pullSql db a after pullLimit := rfl

theorem pullRemote_at_rest (H : db.LogInv a) (hseq : d.lastSeq ≤ db.nextSeq a)
    (hfits : (beyond SyncRow.seq d.lastSeq (db.rowsOf a)).length ≤ pullLimit)
    (hst : processItems env (.start d) (beyond SyncRow.seq d.lastSeq (db.rowsOf a)) = .ok st)
    (happlied : ∀ op ∈ st.appliedOps, ∃ key id patch, op.body = .storeEntry key id patch) :
    (pullRemote env d (restRounds db a)).dev =
      { st.dev with syncMeta := st.syncMeta, lastSeq := db.nextSeq a } := by
  have hcut : cutOff SyncRow.seq d.lastSeq pullLimit (db.rowsOf a) = [] :=
    cutOff_eq_nil_iff.mpr hfits
  cases hpull : pullSql db a d.lastSeq pullLimit with
  | error e =>
    -- without an account there is no log
    have hnone : db.account? a = none := by
      cases hacc : db.account? a with
      | none => rfl
      | some acc => simp [pullSql, hacc] at hpull
    have hnext : db.nextSeq a = 0 := by simp [Db.nextSeq, hnone]
    have hempty : beyond SyncRow.seq d.lastSeq (db.rowsOf a) = [] := by
      rw [eq_nil_iff_forall_not_mem]
      intro r hr
      have := H.le r (mem_beyond.mp hr).1
      have := (mem_beyond.mp hr).2
      omega
    rw [hempty, processItems] at hst
    cases hst
    have hloop : pullLoop env (.start d) (restRounds db a) = .error ⟨.api e, .start d⟩ := by
      simp [restRounds, List.replicate, pullLoop, PullState.start, syncPull_limit, hpull]
    have hlast : d.lastSeq = 0 := by omega
    simp only [pullRemote, hloop, hnext, ← hlast]
    rfl
  | ok out =>
    obtain ⟨hitems, hlatest, hmore⟩ := pullSql_ok hpull
    have hitems : out.items = beyond SyncRow.seq d.lastSeq (db.rowsOf a) := by
      rw [hitems, ← page_append_cutOff (n := pullLimit), hcut, append_nil]
    have hmore : out.more = false := by simpa [hcut] using hmore
    have hafter : max st.after (db.nextSeq a) = db.nextSeq a := by
      refine Nat.max_eq_right ?_
      rw [(processItems_ok hst).1]
      refine lastOf_le.mpr ⟨hseq, fun r hr => H.le r (mem_beyond.mp hr).1⟩
    have hloop : pullLoop env (.start d) (restRounds db a) =
        .ok { st with after := db.nextSeq a, more := false } := by
      simp [restRounds, List.replicate, pullLoop, processPage, hitems, hst, hlatest, hmore, hafter,
        syncPull_limit, hpull, show (PullState.start (δ := δ) d).more = true from rfl,
        show (PullState.start (δ := δ) d).after = d.lastSeq from rfl]
    simp only [pullRemote, hloop]
    exact finishPull_entries happlied

end pull

/-! ## The invariant -/

section
variable {cipher : SyncCipher κ ν δ} {keys : SessionKeys κ} {a : Nat} {origins : ι → String}
  {s s' : Net ι δ} {i j k : ι} {key id : String} {d : Device}

/-- The row holds an entry that device `i` pushed, under the item key of the entry. -/
structure RowOf (cipher : SyncCipher κ ν δ) (keys : SessionKeys κ) (origins : ι → String)
    (r : SyncRow δ) (i : ι) (op : Op) (key id : String) (patch : Option Json) : Prop where
  carries : CarriesEntry (openSyncItem cipher keys.encKey) r op key id patch
  origin : op.origin = origins i
  key : r.key = cipher.syncKeyForLogicalKey keys.macKey (storeEntryKey key id)

variable (cipher keys a origins) in
structure NetInv (s : Net ι δ) : Prop where
  log : s.db.LogInv a
  settled : ∀ i, (s.dev i).Settled
  origin : ∀ i, (s.dev i).origin = origins i
  lastSeq : ∀ i, (s.dev i).lastSeq ≤ s.db.nextSeq a
  rows : ∀ r ∈ s.db.rowsOf a, ∃ i op key id patch, RowOf cipher keys origins r i op key id patch

variable (cipher keys a) in
/-- The entry of every device, and the row that the log holds of it, as a register. -/
structure Mirrors (s : Net ι δ) (key id : String) (t : Register ι Int (Option Json)) : Prop where
  replica : ∀ i, t.replica i = (s.dev i).replica (s.dev i).syncMeta key id
  server : ∀ i w, t.server = some (i, w) ↔ ∃ r ∈ s.db.rowsOf a,
    openSyncItem cipher keys.encKey r = some ⟨w.ts, (s.dev i).origin, .storeEntry key id w.val⟩
  seen : ∀ i, i ∈ t.seen ↔ ∀ r ∈ s.db.rowsOf a, ∀ op, openSyncItem cipher keys.encKey r = some op →
    logicalKeyOfOp op = storeEntryKey key id → r.seq ≤ (s.dev i).lastSeq
  writes : ∀ w, w ∈ t.writes ↔ ⟨w.ts, .storeEntry key id w.val⟩ ∈ s.written

omit [DecidableEq ι] in
theorem NetInv.row_unique (I : NetInv cipher keys a origins s) {r r' : SyncRow δ} {op op' : Op}
    (hr : r ∈ s.db.rowsOf a) (hr' : r' ∈ s.db.rowsOf a)
    (hop : openSyncItem cipher keys.encKey r = some op)
    (hop' : openSyncItem cipher keys.encKey r' = some op')
    (h : logicalKeyOfOp op = logicalKeyOfOp op') : r = r' := by
  obtain ⟨_, _, _, _, _, R⟩ := I.rows r hr
  obtain ⟨_, _, _, _, _, R'⟩ := I.rows r' hr'
  obtain rfl := some.inj (hop.symm.trans R.carries.opens)
  obtain rfl := some.inj (hop'.symm.trans R'.carries.opens)
  refine inj_on_of_nodup_map I.log.keys hr hr' ?_
  rw [R.key, R'.key, ← R.carries.logicalKey, ← R'.carries.logicalKey, h]

omit [DecidableEq ι] in
theorem NetInv.row_entry (I : NetInv cipher keys a origins s) (hkey : key ∈ syncedStoreKeys)
    {r : SyncRow δ} {op : Op} (hr : r ∈ s.db.rowsOf a)
    (hop : openSyncItem cipher keys.encKey r = some op)
    (h : logicalKeyOfOp op = storeEntryKey key id) :
    ∃ i patch, RowOf cipher keys origins r i op key id patch := by
  obtain ⟨i, op', key', id', patch, R⟩ := I.rows r hr
  obtain rfl := some.inj (hop.symm.trans R.carries.opens)
  rw [R.carries.logicalKey, storeEntryKey_inj (not_mem_syncedStoreKey R.carries.synced)
    (not_mem_syncedStoreKey hkey)] at h
  obtain ⟨rfl, rfl⟩ := h
  exact ⟨i, patch, R⟩

@[simp] theorem Net.setDev_db : (s.setDev i d).db = s.db := rfl

@[simp] theorem Net.setDev_written : (s.setDev i d).written = s.written := rfl

theorem Net.setDev_dev : (s.setDev i d).dev j = if j = i then d else s.dev j :=
  update_apply ..

/-! ## A write -/

omit [DecidableEq ι] in
theorem mem_changedEntries {w : LocalWrite} {c : Change} : c ∈ changedEntries d w ↔
    w.key ∈ syncedStoreKeys ∧ ∃ id, d.Changes w id ∧
      c = ⟨w.now, .storeEntry w.key id ((d.write w.key w.value).entry w.key id)⟩ := by
  simp only [changedEntries]
  split
  · next hkey =>
    simp only [hkey, true_and, List.mem_map, mem_diffStoreEntries]
    constructor
    · rintro ⟨_, ⟨id, hne, rfl⟩, rfl⟩; exact ⟨id, hne, rfl⟩
    · rintro ⟨id, hne, rfl⟩; exact ⟨_, ⟨id, hne, rfl⟩, rfl⟩
  · next hkey => simp [hkey]

section write
variable {w : LocalWrite} {t : Register ι Int (Option Json)}

theorem NetInv.write (I : NetInv cipher keys a origins s)
    (hw : w.key ∈ syncedStoreKeys → (s.dev i).Tracked w) (written : List Change) :
    NetInv cipher keys a origins
      { s.setDev i ((s.dev i).localWrite w) with written } where
  log := I.log
  settled j := by
    rw [Net.setDev_dev]
    split
    · exact (I.settled i).localWrite hw
    · exact I.settled j
  origin j := by
    rw [Net.setDev_dev]
    split
    · next h => rw [Device.localWrite_origin, h]; exact I.origin i
    · exact I.origin j
  lastSeq j := by
    rw [Net.setDev_dev]
    split
    · rw [Device.localWrite_lastSeq]; exact I.lastSeq i
    · exact I.lastSeq j
  rows := I.rows

theorem Mirrors.write (I : NetInv cipher keys a origins s) (M : Mirrors cipher keys a s key id t)
    (hkey : key ∈ syncedStoreKeys) (hw : w.key ∈ syncedStoreKeys → (s.dev i).Tracked w ∧
      ∀ c ∈ (s.dev i).outbox, ∀ id, (s.dev i).Changes w id →
        logicalKeyOf c = storeEntryKey w.key id → c.ts ≤ w.now) :
    ∃ acts t', Run Register.step Register.Allowed t acts t' ∧
      Mirrors cipher keys a { s.setDev i ((s.dev i).localWrite w) with
        written := s.written ++ changedEntries (s.dev i) w } key id t' := by
  have hreplica := Device.replica_localWrite (s.dev i).syncMeta id (I.settled i)
    (fun h => (hw h).1) hkey
  have horigin : ∀ j, ((s.setDev i ((s.dev i).localWrite w)).dev j).origin = (s.dev j).origin := by
    intro j
    rw [Net.setDev_dev]
    split
    · next h => rw [Device.localWrite_origin, h]
    · rfl
  have hseq : ∀ j, ((s.setDev i ((s.dev i).localWrite w)).dev j).lastSeq = (s.dev j).lastSeq := by
    intro j
    rw [Net.setDev_dev]
    split
    · next h => rw [Device.localWrite_lastSeq, h]
    · rfl
  by_cases hch : key = w.key ∧ (s.dev i).Changes w id
  · obtain ⟨rfl, hch⟩ := hch
    simp only [hch, and_self, if_true] at hreplica
    refine ⟨[.write i ⟨w.now, ((s.dev i).write w.key w.value).entry w.key id⟩], _,
      .single ?_ rfl, ?_, ?_, ?_, ?_⟩
    · intro ts hts
      rw [M.replica i, Device.mem_pending (I.settled i).nodup] at hts
      obtain ⟨c, hc, hk, rfl⟩ := hts
      exact (hw hkey).2 c hc id hch hk
    · intro j
      simp only [Register.setReplica, update_apply, Net.setDev_dev]
      split
      · rw [Device.localWrite_syncMeta, hreplica, M.replica i]
      · exact M.replica j
    · intro j x
      simp only [horigin]
      exact M.server j x
    · intro j
      simp only [hseq]
      exact M.seen j
    · intro x
      rw [mem_append, mem_changedEntries, Set.mem_insert_iff, M.writes, or_comm]
      refine or_congr_right ⟨?_, ?_⟩
      · rintro rfl
        exact ⟨hkey, id, hch, rfl⟩
      rintro ⟨-, id', -, h⟩
      obtain ⟨ts, val⟩ := x
      injection h with hts hbody
      injection hbody with _ hid hval
      subst hts hid hval
      rfl
  · simp only [hch, if_false] at hreplica
    refine ⟨[], t, .nil, ?_, ?_, ?_, ?_⟩
    · intro j
      simp only [Net.setDev_dev]
      split
      · next h => rw [Device.localWrite_syncMeta, hreplica, h, M.replica i]
      · exact M.replica j
    · intro j x
      simp only [horigin]
      exact M.server j x
    · intro j
      simp only [hseq]
      exact M.seen j
    · intro x
      rw [mem_append, mem_changedEntries, M.writes]
      refine ⟨.inl, fun h => h.resolve_right ?_⟩
      rintro ⟨-, id', hch', h⟩
      injection h with _ hbody
      injection hbody with hk hid _
      subst hk hid
      exact hch ⟨rfl, hch'⟩

end write
/-! ## A push -/

theorem logicalKeyOfOp_entry {ts : Int} {o : String} {patch : Option Json}
    (hkey : key ∈ syncedStoreKeys) (hid : id ≠ "") :
    logicalKeyOfOp ⟨ts, o, .storeEntry key id patch⟩ = storeEntryKey key id := by
  have hne : key ≠ "" := by
    rintro rfl
    revert hkey
    decide
  simp [logicalKeyOfOp, hne, hid]

section push
variable [Blob δ] {iv : String → ν} {quota serverNow now : Int} {t : Register ι Int (Option Json)}
  {sent : List (SentChange δ)} {out : PushOut} {db' : Db δ}

/-- What a request of device `i` took from its outbox, and what the relay made of it. -/
structure Pushed (cipher : SyncCipher κ ν δ) (keys : SessionKeys κ) (a : Nat) (iv : String → ν)
    (quota serverNow now : Int) (s : Net ι δ) (i : ι) (sent : List (SentChange δ)) (out : PushOut)
    (db' : Db δ) : Prop where
  sublist : (sent.map (·.change)).Sublist (s.dev i).outbox
  sealedItems : ∀ x ∈ sent, Sealed (fun k => sealSyncItem cipher keys (iv k) k) (fun _ _ => none) now
    (s.dev i) x
  taken : pushSql s.db a (sent.map (·.item)) quota serverNow = .ok (out, db')

omit [DecidableEq ι] in
theorem Pushed.rowOf (P : Pushed cipher keys a iv quota serverNow now s i sent out db')
    (hcipher : cipher.Decrypts) (I : NetInv cipher keys a origins s) {x : SentChange δ}
    (hx : x ∈ sent) {r : SyncRow δ} (hkey : r.key = x.item.key) (hdata : r.data = x.item.data) :
    ∃ key id, RowOf cipher keys origins r i x.op key id ((s.dev i).entry key id) ∧
      logicalKeyOf x.change = storeEntryKey key id ∧
      x.op = ⟨x.change.ts, (s.dev i).origin, .storeEntry key id ((s.dev i).entry key id)⟩ := by
  have hmem : x.change ∈ (s.dev i).outbox := P.sublist.subset (mem_map.mpr ⟨x, hx, rfl⟩)
  obtain ⟨hop, hitem⟩ := P.sealedItems x hx
  obtain ⟨key, id, hsynced, hvalid, hk, hbuild⟩ := Device.buildOp_settled (fun _ _ => none) now
    (I.settled i) hmem
  have hop : x.op = ⟨x.change.ts, (s.dev i).origin,
      .storeEntry key id ((s.dev i).entry key id)⟩ := some.inj (hop.symm.trans hbuild)
  rw [hitem] at hkey hdata
  refine ⟨key, id, ⟨⟨openSyncItem_sealed hcipher hkey hdata, ?_, hsynced, hvalid, ?_⟩, ?_, ?_⟩, hk,
    hop⟩
  · rw [hop]
  · rw [hop]
    exact ((I.settled i).changes _ hmem).1
  · rw [hop]
    exact I.origin i
  · rw [hkey, ← hk]
    rfl

omit [DecidableEq ι] in
theorem Pushed.item_key (P : Pushed cipher keys a iv quota serverNow now s i sent out db')
    {x : SentChange δ} (hx : x ∈ sent) :
    x.item.key = cipher.syncKeyForLogicalKey keys.macKey (logicalKeyOf x.change) := by
  rw [(P.sealedItems x hx).2]
  rfl

omit [DecidableEq ι] in
theorem Pushed.keys_nodup (P : Pushed cipher keys a iv quota serverNow now s i sent out db')
    (hsep : cipher.Separates) (I : NetInv cipher keys a origins s) :
    ((sent.map (·.item)).map (·.key)).Nodup := by
  have hn : (sent.map fun x => logicalKeyOf x.change).Nodup := by
    simpa [Function.comp_def] using (I.settled i).nodup.sublist (P.sublist.map logicalKeyOf)
  have hkeys : (sent.map (·.item)).map (·.key) =
      (sent.map fun x => logicalKeyOf x.change).map (cipher.syncKeyForLogicalKey keys.macKey) := by
    rw [List.map_map, List.map_map]
    exact List.map_congr_left fun x hx => P.item_key hx
  rw [hkeys]
  exact hn.map (hsep keys.macKey)

theorem NetInv.push (I : NetInv cipher keys a origins s) (hcipher : cipher.Decrypts)
    (P : Pushed cipher keys a iv quota serverNow now s i sent out db') :
    NetInv cipher keys a origins { s.setDev i ((s.dev i).afterPush sent) with db := db' } where
  log := (pushSql_log P.taken I.log).1
  settled j := by
    rw [Net.setDev_dev]
    split
    · exact (I.settled i).afterPush
    · exact I.settled j
  origin j := by
    rw [Net.setDev_dev]
    split
    · next h => exact h ▸ I.origin i
    · exact I.origin j
  lastSeq j := by
    have hle := (pushSql_log P.taken I.log).2.1.le
    rw [Net.setDev_dev]
    split
    · exact (I.lastSeq i).trans hle
    · exact (I.lastSeq j).trans hle
  rows r hr := by
    rcases pushSql_source P.taken hr with ⟨item, hitem, hk, hd, -⟩ | ⟨hr, -⟩
    · obtain ⟨x, hx, rfl⟩ := mem_map.mp hitem
      obtain ⟨key, id, R, -⟩ := P.rowOf hcipher I hx hk hd
      exact ⟨i, x.op, key, id, _, R⟩
    · exact I.rows r hr

theorem Mirrors.push (I : NetInv cipher keys a origins s) (M : Mirrors cipher keys a s key id t)
    (horigins : Function.Injective origins) (hcipher : cipher.Decrypts) (hsep : cipher.Separates)
    (hkey : key ∈ syncedStoreKeys) (hid : id ≠ "")
    (P : Pushed cipher keys a iv quota serverNow now s i sent out db')
    (hnewer : ∀ c ∈ (s.dev i).outbox, ∀ r ∈ s.db.rowsOf a, ∀ op,
      openSyncItem cipher keys.encKey r = some op → logicalKeyOfOp op = logicalKeyOf c →
        op.ts ≤ c.ts) :
    ∃ acts t', Run Register.step Register.Allowed t acts t' ∧
      Mirrors cipher keys a { s.setDev i ((s.dev i).afterPush sent) with db := db' } key id t' := by
  set s' : Net ι δ := { s.setDev i ((s.dev i).afterPush sent) with db := db' } with hs'
  have I' : NetInv cipher keys a origins s' := I.push hcipher P
  obtain ⟨hkept, hstored⟩ := pushSql_rows (P.keys_nodup hsep I) P.taken
  have hreplica := Device.replica_afterPush key id (I.settled i) P.sublist
  have horigin : ∀ j, (s'.dev j).origin = (s.dev j).origin := fun j =>
    (I'.origin j).trans (I.origin j).symm
  have hseq : ∀ j, (s'.dev j).lastSeq = (s.dev j).lastSeq := by
    intro j
    simp only [hs', Net.setDev_dev]
    split
    · next h => exact h ▸ rfl
    · rfl
  by_cases hx : ∃ x ∈ sent, logicalKeyOf x.change = storeEntryKey key id
  · rw [if_pos hx] at hreplica
    obtain ⟨x, hx, hk⟩ := hx
    have hmem : x.change ∈ (s.dev i).outbox := P.sublist.subset (mem_map.mpr ⟨x, hx, rfl⟩)
    have hpend : x.change.ts ∈ (t.replica i).pending := by
      rw [M.replica i]
      exact (Device.mem_pending (I.settled i).nodup).mpr ⟨_, hmem, hk, rfl⟩
    -- the row of the entry
    obtain ⟨r, hr, hrk, hrd⟩ := hstored x.item (mem_map.mpr ⟨x, hx, rfl⟩)
    obtain ⟨key', id', R, hk', hop⟩ := P.rowOf hcipher I hx hrk hrd
    have hsame := (storeEntryKey_inj (not_mem_syncedStoreKey R.carries.synced)
      (not_mem_syncedStoreKey hkey)).mp (hk'.symm.trans hk)
    obtain ⟨rfl, rfl⟩ := hsame
    have hnew : s.db.nextSeq a < r.seq := by
      rcases pushSql_source P.taken hr with ⟨-, -, -, -, hlt⟩ | ⟨-, hne⟩
      · exact hlt
      · exact absurd hrk.symm (hne x.item (mem_map.mpr ⟨x, hx, rfl⟩))
    have hval : (t.replica i).val = (s.dev i).entry key' id' := by rw [M.replica i]; rfl
    have hstep : t.step (.push i) = some (t.push i x.change.ts) := by
      rw [Register.step, mem_def.mp hpend, map_some]
    refine ⟨[.push i], t.push i x.change.ts, .single ?_ hstep, ?_, ?_, ?_, M.writes⟩
    · rintro ⟨j, w⟩ hw ts hts
      obtain ⟨r', hr', hopen⟩ := (M.server j w).mp hw
      rw [mem_unique hts hpend]
      exact hnewer _ hmem r' hr' _ hopen ((logicalKeyOfOp_entry hkey hid).trans hk.symm)
    · intro j
      simp only [Register.push, Register.setReplica, update_apply, hs', Net.setDev_dev]
      split
      · rw [hreplica, M.replica i]
      · exact M.replica j
    · intro j w
      simp only [Register.push, Option.some.injEq, Prod.mk.injEq]
      constructor
      · rintro ⟨rfl, rfl⟩
        refine ⟨r, hr, ?_⟩
        rw [R.carries.opens, hop, hval, horigin]
      rintro ⟨r', hr', hopen⟩
      obtain rfl : r = r' := I'.row_unique hr hr' R.carries.opens hopen
        (R.carries.logicalKey.trans (logicalKeyOfOp_entry hkey hid).symm)
      have hop' := some.inj (R.carries.opens.symm.trans hopen)
      rw [hop, horigin, Op.mk.injEq] at hop'
      obtain ⟨hts, ho, hbody⟩ := hop'
      rw [I.origin, I.origin] at ho
      injection hbody with _ _ hv
      refine ⟨horigins ho, ?_⟩
      rw [hval, hv, hts]
    · intro j
      refine iff_of_false (Set.notMem_empty j) fun h => ?_
      have := h r hr x.op R.carries.opens R.carries.logicalKey
      rw [hseq] at this
      have := I.lastSeq j
      omega
  · rw [if_neg hx] at hreplica
    -- the rows of the entry are what they were
    have hrows : ∀ r op, openSyncItem cipher keys.encKey r = some op →
        logicalKeyOfOp op = storeEntryKey key id → (r ∈ db'.rowsOf a ↔ r ∈ s.db.rowsOf a) := by
      intro r op hopen hlogical
      constructor
      · intro hr
        rcases pushSql_source P.taken hr with ⟨item, hitem, hk, hd, -⟩ | ⟨hr, -⟩
        · obtain ⟨x, hxs, rfl⟩ := mem_map.mp hitem
          obtain ⟨key', id', R, hk', -⟩ := P.rowOf hcipher I hxs hk hd
          obtain rfl := some.inj (hopen.symm.trans R.carries.opens)
          exact absurd ⟨x, hxs, hk'.trans (R.carries.logicalKey.symm.trans hlogical)⟩ hx
        · exact hr
      · intro hr
        refine hkept r hr fun item hitem e => ?_
        obtain ⟨x, hxs, rfl⟩ := mem_map.mp hitem
        obtain ⟨_, _, R⟩ := I.row_entry hkey hr hopen hlogical
        rw [P.item_key hxs, R.key] at e
        exact hx ⟨x, hxs, hsep _ e⟩
    refine ⟨[], t, .nil, ?_, ?_, ?_, M.writes⟩
    · intro j
      simp only [hs', Net.setDev_dev]
      split
      · next h => rw [hreplica, h, M.replica i]
      · exact M.replica j
    · intro j w
      rw [M.server, horigin]
      refine exists_congr fun r => and_congr_left fun hopen => ?_
      exact (hrows r _ hopen (logicalKeyOfOp_entry hkey hid)).symm
    · intro j
      rw [M.seen, hseq]
      constructor
      · intro h r hr op hopen hlogical
        exact h r ((hrows r op hopen hlogical).mp hr) op hopen hlogical
      · intro h r hr op hopen hlogical
        exact h r ((hrows r op hopen hlogical).mpr hr) op hopen hlogical

end push
/-! ## A pull -/

section pull
variable {uuid : Nat → String} {now : Int} {t : Register ι Int (Option Json)}

/-- What a pull that the net allows leaves on the device: the entries on the page are received, the
others are as they were. -/
structure Pulled (cipher : SyncCipher κ ν δ) (keys : SessionKeys κ) (a : Nat) (db : Db δ)
    (d d' : Device) : Prop where
  settled : d'.Settled
  origin : d'.origin = d.origin
  lastSeq : d'.lastSeq = db.nextSeq a
  others : ∀ key id, key ∈ syncedStoreKeys → (∀ r ∈ db.rowsOf a, ∀ op,
    openSyncItem cipher keys.encKey r = some op → logicalKeyOfOp op = storeEntryKey key id →
      r.seq ≤ d.lastSeq) → d'.replica d'.syncMeta key id = d.replica d.syncMeta key id
  received : ∀ r ∈ db.rowsOf a, d.lastSeq < r.seq → ∀ op key id patch,
    CarriesEntry (openSyncItem cipher keys.encKey) r op key id patch →
      d'.replica d'.syncMeta key id = if op.origin ≠ d.origin then
        (d.replica d.syncMeta key id).receive ⟨op.ts, patch⟩ else d.replica d.syncMeta key id

omit [DecidableEq ι] in
theorem NetInv.pulled [Blob δ] (I : NetInv cipher keys a origins s) (hne : origins i ≠ "")
    (hok : NetAllowed cipher keys a s (.pull i uuid now)) :
    Pulled cipher keys a s.db (s.dev i)
      (pullRemote (syncEnv cipher keys uuid now) (s.dev i) (restRounds s.db a)).dev := by
  obtain ⟨hfits, hok⟩ := hok
  have hmem : ∀ r ∈ beyond SyncRow.seq (s.dev i).lastSeq (s.db.rowsOf a), r ∈ s.db.rowsOf a :=
    fun r hr => (mem_beyond.mp hr).1
  have hdistinct := (beyond_strict (c := (s.dev i).lastSeq) I.log.seqs_nodup).imp_of_mem
    (S := fun x y => ∀ op op', (syncEnv cipher keys uuid now).openItem x = some op →
      (syncEnv cipher keys uuid now).openItem y = some op' →
        logicalKeyOfOp op ≠ logicalKeyOfOp op') (by
    intro x y hx hy hlt op op' hop hop' e
    obtain rfl := I.row_unique (hmem x hx) (hmem y hy) hop hop' e
    exact lt_irrefl _ hlt)
  obtain ⟨st, hst, hsettled, horigin, happlied, hsame, hreceived⟩ := processItems_entries
    (syncEnv cipher keys uuid now) (.start (s.dev i)) (I.settled i)
    ((I.origin i).trans_ne hne)
    (fun r hr => by
      obtain ⟨_, op, key, id, patch, R⟩ := I.rows r (hmem r hr)
      exact ⟨op, key, id, patch, R.carries⟩)
    hdistinct (fun r hr op hop => (hok r hr op hop).1)
    (fun r hr op key id patch hcarries =>
      (hok r hr op hcarries.opens).2 key id patch hcarries.body)
  have hentries : ∀ op ∈ st.appliedOps, ∃ key id patch, op.body = .storeEntry key id patch := by
    intro op hop
    rcases happlied op hop with h | ⟨r, hr, hopen⟩
    · cases h
    · obtain ⟨_, op', key, id, patch, R⟩ := I.rows r (hmem r hr)
      obtain rfl := some.inj (hopen.symm.trans R.carries.opens)
      exact ⟨key, id, patch, R.carries.body⟩
  rw [pullRemote_at_rest I.log (I.lastSeq i) hfits hst hentries]
  refine ⟨hsettled.sublist rfl (List.Sublist.refl _), horigin, rfl, fun key id hkey hno => ?_,
    fun r hr hlt op key id patch hcarries => ?_⟩
  · refine hsame key id hkey fun r hr op hop e => ?_
    have := hno r (hmem r hr) op hop e
    have := (mem_beyond.mp hr).2
    omega
  · exact hreceived r (mem_beyond.mpr ⟨hr, hlt⟩) op key id patch hcarries

theorem NetInv.pull (I : NetInv cipher keys a origins s) {d' : Device}
    (P : Pulled cipher keys a s.db (s.dev i) d') :
    NetInv cipher keys a origins (s.setDev i d') where
  log := I.log
  settled j := by
    rw [Net.setDev_dev]
    split
    · exact P.settled
    · exact I.settled j
  origin j := by
    rw [Net.setDev_dev]
    split
    · next h => exact h ▸ P.origin.trans (I.origin i)
    · exact I.origin j
  lastSeq j := by
    rw [Net.setDev_dev]
    split
    · exact P.lastSeq.le
    · exact I.lastSeq j
  rows := I.rows

theorem Mirrors.pull (I : NetInv cipher keys a origins s) (M : Mirrors cipher keys a s key id t)
    (horigins : Function.Injective origins) (hkey : key ∈ syncedStoreKeys) {d' : Device}
    (P : Pulled cipher keys a s.db (s.dev i) d') :
    Mirrors cipher keys a (s.setDev i d') key id (t.pull i) := by
  have horigin : ∀ j, ((s.setDev i d').dev j).origin = (s.dev j).origin := by
    intro j
    rw [Net.setDev_dev]
    split
    · next h => exact h ▸ P.origin
    · rfl
  have hseen : ∀ j, j ∈ insert i t.seen ↔ ∀ r ∈ s.db.rowsOf a, ∀ op,
      openSyncItem cipher keys.encKey r = some op → logicalKeyOfOp op = storeEntryKey key id →
        r.seq ≤ ((s.setDev i d').dev j).lastSeq := by
    intro j
    rw [Set.mem_insert_iff, Net.setDev_dev, M.seen]
    split
    · next h =>
      simp only [h, true_or, true_iff, P.lastSeq]
      exact fun r hr _ _ _ => I.log.le r hr
    · next h => simp only [h, false_or]
  by_cases hnew : ∃ r ∈ s.db.rowsOf a, (s.dev i).lastSeq < r.seq ∧ ∃ op,
      openSyncItem cipher keys.encKey r = some op ∧ logicalKeyOfOp op = storeEntryKey key id
  · obtain ⟨r, hr, hlt, op, hopen, hlogical⟩ := hnew
    obtain ⟨j, patch, R⟩ := I.row_entry hkey hr hopen hlogical
    have hserver : t.server = some (j, ⟨op.ts, patch⟩) := by
      refine (M.server j _).mpr ⟨r, hr, ?_⟩
      have := R.carries.body
      have := R.origin.trans (I.origin j).symm
      cases op
      simp_all
    have hunseen : i ∉ t.seen := fun h => by
      have := (M.seen i).mp h r hr op hopen hlogical
      omega
    have hreceived := P.received r hr hlt op key id patch R.carries
    by_cases hown : j = i
    · -- its own item
      have horigin' : op.origin = (s.dev i).origin := by rw [R.origin, I.origin, hown]
      rw [if_neg (not_not_intro horigin')] at hreceived
      rw [Register.pull_of_seen fun x hx => .inr (some.inj (hserver.symm.trans hx) ▸ hown)]
      refine ⟨fun k => ?_, fun k w => ?_, hseen, M.writes⟩
      · simp only [Net.setDev_dev]
        split
        · next h => rw [hreceived, h, M.replica i]
        · exact M.replica k
      · rw [horigin]
        exact M.server k w
    · have horigin' : op.origin ≠ (s.dev i).origin := by
        rw [R.origin, I.origin]
        exact fun e => hown (horigins e)
      rw [if_pos horigin'] at hreceived
      rw [Register.pull_of_unseen hserver hunseen hown]
      refine ⟨fun k => ?_, fun k w => ?_, hseen, M.writes⟩
      · simp only [Register.setReplica, update_apply, Net.setDev_dev]
        split
        · rw [hreceived, M.replica i]
        · exact M.replica k
      · rw [horigin]
        exact M.server k w
  · have hold : ∀ r ∈ s.db.rowsOf a, ∀ op, openSyncItem cipher keys.encKey r = some op →
        logicalKeyOfOp op = storeEntryKey key id → r.seq ≤ (s.dev i).lastSeq := by
      intro r hr op hopen hlogical
      by_contra hlt
      exact hnew ⟨r, hr, by omega, op, hopen, hlogical⟩
    rw [Register.pull_of_seen fun x _ => .inl ((M.seen i).mpr hold)]
    refine ⟨fun k => ?_, fun k w => ?_, hseen, M.writes⟩
    · simp only [Net.setDev_dev]
      split
      · next h => rw [P.others key id hkey hold, h, M.replica i]
      · exact M.replica k
    · rw [horigin]
      exact M.server k w

end pull

/-! ## Runs -/

section run
variable [Blob δ]

theorem netStep_mirrors {act : NetAction ι ν} (hcipher : cipher.Decrypts) (hsep : cipher.Separates)
    (horigins : Function.Injective origins) (hne : ∀ i, origins i ≠ "")
    (hok : NetAllowed cipher keys a s act) (I : NetInv cipher keys a origins s)
    (h : netStep cipher keys a s act = some s') :
    NetInv cipher keys a origins s' ∧ ∀ key id t, key ∈ syncedStoreKeys → id ≠ "" →
      Mirrors cipher keys a s key id t →
        ∃ acts t', Run Register.step Register.Allowed t acts t' ∧
          Mirrors cipher keys a s' key id t' := by
  cases act with
  | write i w =>
    cases h
    exact ⟨I.write (fun h => (hok h).1) _, fun key id t hkey _ M => M.write I hkey hok⟩
  | push i iv quota serverNow now =>
    rcases pushTurn_sendable a quota serverNow s.db
      fun c hc => (hok c hc).1 with hidle | ⟨sent, out, db', hsub, hsealed, hpush, hturn⟩
    · have hs' : s' = s := by
        simp only [netStep, netPush, hidle, Option.some.injEq] at h
        rw [← h]
        simp [Net.setDev]
      subst hs'
      exact ⟨I, fun key id t _ _ M => ⟨[], t, .nil, M⟩⟩
    · have P : Pushed cipher keys a iv quota serverNow now s i sent out db' :=
        ⟨hsub, hsealed, hpush⟩
      simp only [netStep, netPush, hturn, Option.some.injEq] at h
      subst h
      exact ⟨I.push hcipher P, fun key id t hkey hid M =>
        M.push I horigins hcipher hsep hkey hid P fun c hc => (hok c hc).2⟩
  | pull i uuid now =>
    cases h
    have P := I.pulled (hne i) hok
    exact ⟨I.pull P, fun key id t hkey _ M =>
      ⟨[.pull i], t.pull i, .single trivial rfl, M.pull I horigins hkey P⟩⟩

/-- Devices on which nothing is stored, and an account without items. -/
structure Net.Starts (a : Nat) (origins : ι → String) (s : Net ι δ) : Prop where
  rows : s.db.rowsOf a = []
  dev : ∀ i, ∃ backend, s.dev i = Device.fresh backend (origins i)
  written : s.written = []

omit [DecidableEq ι] [Blob δ] in
theorem Net.Starts.inv (h : Net.Starts a origins s) : NetInv cipher keys a origins s := by
  have hfresh : ∀ i, (s.dev i).outbox = [] ∧ (s.dev i).store = .empty ∧
      (s.dev i).origin = origins i ∧ (s.dev i).lastSeq = 0 := by
    intro i
    obtain ⟨backend, hi⟩ := h.dev i
    rw [hi]
    exact ⟨rfl, rfl, rfl, rfl⟩
  refine ⟨LogInv.empty h.rows, fun i => ⟨by simp [(hfresh i).1], by simp [(hfresh i).1], ?_⟩,
    fun i => (hfresh i).2.2.1, fun i => by simp [(hfresh i).2.2.2], by simp [h.rows]⟩
  intro key hkey
  have : key = "contacts" ∨ key = "groups" := by simpa [arrayStoreKeys] using hkey
  simp [Device.storeValue, (hfresh i).2.1, storeDefault, this, arrayItems, ItemsDistinct]

omit [DecidableEq ι] [Blob δ] in
theorem Net.Starts.mirrors (h : Net.Starts a origins s) :
    Mirrors cipher keys a s key id (.initial none) := by
  refine ⟨fun i => ?_, fun i w => ?_, fun i => ?_, fun w => ?_⟩
  · obtain ⟨backend, hi⟩ := h.dev i
    rw [hi, Device.replica, Device.entry_fresh]
    rfl
  · simp [Register.initial, h.rows]
  · simp [Register.initial, h.rows]
  · simp [Register.initial, h.written]

end run
end

local instance instBlobNet : Blob (String × String × Op) := ⟨fun _ => 100, fun _ => 100⟩

end Bluetalk.CloudAccount

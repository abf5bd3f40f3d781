import Bluetalk.Theory.Page

/-!
# The relay's account tables

The tables `accounts`, `account_tokens` and `sync_items` of `relay/src/db.rs` and the row types of
`relay/src/accounts.rs`. The server is zero-knowledge: the `data` column of a sync item is a value
of an arbitrary type `δ` of which it reads two lengths only (`Blob`), the number of bytes the push
handler counts and the `length(data)` of a query.
-/

open List

namespace Bluetalk.Relay

/-- The two lengths of a `data` value. -/
class Blob (δ : Type) where
  /-- `item.data.len()` -/
  len : δ → Nat
  /-- `length(data)` in SQLite -/
  sqlLength : δ → Nat

/-- SQLite's `length` of a text: its characters before the first NUL. -/
def sqlTextLength (s : String) : Nat := (s.toList.takeWhile fun c => c ≠ '\x00').length

instance : Blob String where
  len := String.utf8ByteSize
  sqlLength := sqlTextLength

inductive AccountError
  | invalid | usernameTaken | peerTaken | invalidCredentials | unauthorized | tooLarge | quota
  | notFound

structure SyncRow (δ : Type) where
  seq : Nat
  key : String
  data : δ
  ts : Int
  deriving DecidableEq

/-- A row of `sync_items`. -/
structure ItemRow (δ : Type) where
  accountId : Nat
  row : SyncRow δ
  deriving DecidableEq

/-- The parameters of the key derivation. -/
structure Kdf where
  alg : String
  iterations : Nat
  salt : String
  deriving DecidableEq, Inhabited

/-- A row of `accounts`; the key material is text. -/
structure AccountRow where
  id : Nat
  username : String
  peerId : String
  authKeyHash : String
  kdf : Kdf
  vault : String
  nextSeq : Nat
  usedBytes : Int
  deriving DecidableEq

/-- A row of `account_tokens`. -/
structure TokenRow where
  hash : String
  accountId : Nat
  createdAt : Int
  lastUsed : Int
  deviceName : String
  deriving DecidableEq

structure Db (δ : Type) where
  accounts : List AccountRow
  accountTokens : List TokenRow
  syncItems : List (ItemRow δ)
  deriving DecidableEq

variable {δ : Type} {a : Nat} {db : Db δ}

/-- `SELECT … FROM accounts WHERE id = ?1` -/
def Db.account? (db : Db δ) (a : Nat) : Option AccountRow := db.accounts.find? fun x => x.id = a

/-- `UPDATE accounts SET … WHERE id = ?` -/
def Db.updateAccount (db : Db δ) (a : Nat) (f : AccountRow → AccountRow) : Db δ :=
  { db with accounts := db.accounts.map fun x => if x.id = a then f x else x }

/-- The items of an account among rows of `sync_items`. -/
def rowsAt (items : List (ItemRow δ)) (a : Nat) : List (SyncRow δ) :=
  (items.filter fun x => x.accountId = a).map (·.row)

/-- The live items of an account. -/
def Db.rowsOf (db : Db δ) (a : Nat) : List (SyncRow δ) := rowsAt db.syncItems a

/-- The last sequence number handed out for an account, `0` for an unknown one. -/
def Db.nextSeq (db : Db δ) (a : Nat) : Nat := ((db.account? a).map (·.nextSeq)).getD 0

theorem mem_rowsAt {items : List (ItemRow δ)} {r : SyncRow δ} :
    r ∈ rowsAt items a ↔ ⟨a, r⟩ ∈ items := by
  simp only [rowsAt, mem_map, mem_filter, decide_eq_true_eq]
  constructor
  · rintro ⟨x, ⟨hx, rfl⟩, rfl⟩; exact hx
  · intro h; exact ⟨_, ⟨h, rfl⟩, rfl⟩

theorem Db.account?_updateAccount {b : Nat} {f : AccountRow → AccountRow}
    (hf : ∀ x, (f x).id = x.id) :
    (db.updateAccount a f).account? b =
      (db.account? b).map fun x => if x.id = a then f x else x := by
  simp only [Db.account?, Db.updateAccount]
  induction db.accounts with
  | nil => rfl
  | cons x xs ih =>
    have hid : (if x.id = a then f x else x).id = x.id := by split <;> simp [hf]
    simp only [map_cons, find?_cons, hid]
    by_cases h : x.id = b
    · simp only [h, decide_true, Option.map_some]
    · simpa only [h, decide_false] using ih

theorem Db.account?_id {x : AccountRow} (h : db.account? a = some x) :
    x.id = a := by simpa using find?_some h

@[simp] theorem Db.updateAccount_syncItems (db : Db δ) (a : Nat) (f : AccountRow → AccountRow) :
    (db.updateAccount a f).syncItems = db.syncItems := rfl

@[simp] theorem Db.updateAccount_accountTokens (db : Db δ) (a : Nat)
    (f : AccountRow → AccountRow) :
    (db.updateAccount a f).accountTokens = db.accountTokens := rfl

end Bluetalk.Relay

/-!
## The sync log of the relay

`push_sql`, `pull_sql` and `delete_keys_sql` of `relay/src/accounts.rs`. A transaction that fails
returns its error and no database: the caller keeps the one it had. Sequence numbers are counted
without the bound of the `i64` column, byte totals saturate as in the source.
-/

namespace Bluetalk.Relay

def syncItemMaxBytes : Nat := 3 * 1024 * 1024
def syncPushMaxItems : Nat := 100
def syncDeleteMaxKeys : Nat := 500
def syncPullDefault : Nat := 200
def syncPullMax : Nat := 500

def i64Min : Int := -0x8000000000000000
def i64Max : Int := 0x7FFFFFFFFFFFFFFF

def saturate (x : Int) : Int := max i64Min (min i64Max x)
def saturatingAdd (x y : Int) : Int := saturate (x + y)
def saturatingSub (x y : Int) : Int := saturate (x - y)

def validSyncKey (k : String) : Bool :=
  1 ≤ k.utf8ByteSize && k.utf8ByteSize ≤ 64 &&
    k.toList.all fun c => c.isAlphanum || c == '_' || c == '-'

structure PushItem (δ : Type) where
  key : String
  data : δ

structure PushOut where
  results : List (String × Nat)
  latestSeq : Nat

structure PullOut (δ : Type) where
  items : List (SyncRow δ)
  latestSeq : Nat
  more : Bool

variable {δ : Type} {items items' : List (ItemRow δ)} {a b : Nat} {r : SyncRow δ}

/-- The row of `sync_items` under the primary key `(account_id, key)`. -/
def findItem (items : List (ItemRow δ)) (a : Nat) (key : String) : Option (ItemRow δ) :=
  items.find? fun x => x.accountId = a ∧ x.row.key = key

/-- `INSERT … ON CONFLICT(account_id, key) DO UPDATE`. `none` is a violation of the unique index
on `(account_id, seq)`. -/
def upsertItem (items : List (ItemRow δ)) (a : Nat) (r : SyncRow δ) : Option (List (ItemRow δ)) :=
  if items.any fun x => x.accountId = a ∧ x.row.seq = r.seq ∧ x.row.key ≠ r.key then none
  else if items.any fun x => x.accountId = a ∧ x.row.key = r.key then
    some (items.map fun x => if x.accountId = a ∧ x.row.key = r.key then ⟨a, r⟩ else x)
  else some (items ++ [⟨a, r⟩])

section push
variable [Blob δ]

/-- The checks `push_sql` makes before it opens its transaction, item by item. -/
def checkItems : List (PushItem δ) → Except AccountError Unit
  | [] => .ok ()
  | item :: items =>
    if !validSyncKey item.key then .error .invalid
    else if syncItemMaxBytes < Blob.len item.data then .error .tooLarge
    else checkItems items

/-- The variables of the loop over the pushed items. -/
structure PushState (δ : Type) where
  items : List (ItemRow δ)
  current : Int
  nextSeq : Nat
  results : List (String × Nat)

/-- One turn of the loop: the quota is checked against the item that is replaced. -/
def pushItem (a : Nat) (quota now : Int) (st : PushState δ) (item : PushItem δ) :
    Except AccountError (PushState δ) :=
  let old := ((findItem st.items a item.key).map fun x => Blob.sqlLength x.row.data).getD 0
  let newTotal := saturatingAdd (saturatingSub st.current old) (Blob.len item.data)
  if quota < newTotal then .error .quota
  else
    match upsertItem st.items a ⟨st.nextSeq + 1, item.key, item.data, now⟩ with
    | none => .error .invalid
    | some items =>
      .ok ⟨items, newTotal, st.nextSeq + 1, st.results ++ [(item.key, st.nextSeq + 1)]⟩

def pushItems (a : Nat) (quota now : Int) :
    PushState δ → List (PushItem δ) → Except AccountError (PushState δ)
  | st, [] => .ok st
  | st, item :: items =>
    match pushItem a quota now st item with
    | .error e => .error e
    | .ok st => pushItems a quota now st items

theorem pushItems_cons {a : Nat} {quota now : Int} {st : PushState δ} {item : PushItem δ}
    {items : List (PushItem δ)} : pushItems a quota now st (item :: items) =
      match pushItem a quota now st item with
      | .error e => .error e
      | .ok st => pushItems a quota now st items := (rfl)

theorem pushItems_cons_ok {a : Nat} {quota now : Int} {st st' : PushState δ} {item : PushItem δ}
    {items : List (PushItem δ)} (h : pushItems a quota now st (item :: items) = .ok st') :
    ∃ st₁, pushItem a quota now st item = .ok st₁ ∧ pushItems a quota now st₁ items = .ok st' := by
  rw [pushItems_cons] at h
  split at h
  · cases h
  next st₁ hst₁ => exact ⟨st₁, hst₁, h⟩

def pushSql (db : Db δ) (a : Nat) (items : List (PushItem δ)) (quota now : Int) :
    Except AccountError (PushOut × Db δ) :=
  if syncPushMaxItems < items.length then .error .invalid
  else
    match checkItems items with
    | .error e => .error e
    | .ok () =>
      match db.account? a with
      | none => .error .unauthorized
      | some acc =>
        match pushItems a quota now ⟨db.syncItems, acc.usedBytes, acc.nextSeq, []⟩ items with
        | .error e => .error e
        | .ok st =>
          .ok (⟨st.results, st.nextSeq⟩,
            { db with syncItems := st.items }.updateAccount a fun x =>
              { x with nextSeq := st.nextSeq, usedBytes := st.current })

end push

/-- The page is the rows beyond `after` in ascending order, cut after `limit` rows: one row more
is fetched to tell whether something was cut. -/
def pullSql (db : Db δ) (a after limit : Nat) : Except AccountError (PullOut δ) :=
  match db.account? a with
  | none => .error .unauthorized
  | some acc =>
    let items := page SyncRow.seq after (limit + 1) (db.rowsOf a)
    let more := limit < items.length
    .ok ⟨if more then items.take limit else items, acc.nextSeq, more⟩

/-- The handler of `GET /v1/sync/pull` (`relay/src/api.rs`): its defaults and the clamp. -/
def syncPull (db : Db δ) (a : Nat) (after : Option Int) (limit : Option Nat) :
    Except AccountError (PullOut δ) :=
  pullSql db a (max 0 (after.getD 0)).toNat (max 1 (min syncPullMax (limit.getD syncPullDefault)))

section delete
variable [Blob δ]

/-- The variables of the loop over the deleted keys. -/
structure DeleteState (δ : Type) where
  items : List (ItemRow δ)
  n : Nat
  freed : Int

def deleteKey (a : Nat) (st : DeleteState δ) (key : String) : DeleteState δ :=
  if !validSyncKey key then st
  else
    match findItem st.items a key with
    | none => st
    | some x =>
      ⟨st.items.filter fun y => ¬(y.accountId = a ∧ y.row.key = key), st.n + 1,
        saturatingAdd st.freed (Blob.sqlLength x.row.data)⟩

def deleteKeysSql (db : Db δ) (a : Nat) (keys : List String) : Except AccountError (Nat × Db δ) :=
  if syncDeleteMaxKeys < keys.length then .error .invalid
  else
    let st := keys.foldl (deleteKey a) ⟨db.syncItems, 0, 0⟩
    let db := { db with syncItems := st.items }
    .ok (st.n, if 0 < st.n then
      db.updateAccount a fun x => { x with usedBytes := max 0 (x.usedBytes - st.freed) } else db)

end delete

/-! ### Queries on the rows of one account -/

theorem findItem_eq_some {key : String} {x : ItemRow δ}
    (h : findItem items a key = some x) : x.accountId = a ∧ x.row.key = key ∧ x ∈ items := by
  have h1 := find?_some h
  simp only [decide_eq_true_eq] at h1
  exact ⟨h1.1, h1.2, mem_of_find?_eq_some h⟩

theorem mem_rowsAt_upsertItem {x : SyncRow δ}
    (h : upsertItem items a r = some items') :
    x ∈ rowsAt items' b ↔
      (b = a ∧ x = r) ∨ (x ∈ rowsAt items b ∧ ¬(b = a ∧ x.key = r.key)) := by
  simp only [upsertItem, mem_rowsAt] at h ⊢
  split at h
  · cases h
  split at h
  · next hany =>
    cases h
    obtain ⟨y, hy, hya, hyk⟩ : ∃ y ∈ items, y.accountId = a ∧ y.row.key = r.key := by
      simpa using hany
    constructor
    · intro hx
      obtain ⟨z, hz, hzx⟩ := mem_map.mp hx
      split at hzx
      · cases hzx; exact .inl ⟨rfl, rfl⟩
      · next hne => subst hzx; exact .inr ⟨hz, hne⟩
    · rintro (⟨rfl, rfl⟩ | ⟨hx, hne⟩)
      · exact mem_map.mpr ⟨y, hy, by rw [if_pos ⟨hya, hyk⟩]⟩
      · exact mem_map.mpr ⟨_, hx, by rw [if_neg hne]⟩
  · next hany =>
    cases h
    have hfresh : ∀ y ∈ items, y.accountId = a → y.row.key ≠ r.key := by simpa using hany
    simp only [mem_append, mem_singleton, ItemRow.mk.injEq]
    constructor
    · rintro (hx | hx)
      · exact .inr ⟨hx, fun hk => hfresh _ hx hk.1 hk.2⟩
      · exact .inl hx
    · rintro (hx | hx)
      · exact .inr hx
      · exact .inl hx.1

theorem rowsAt_map_key_map {f : ItemRow δ → ItemRow δ}
    (hf : ∀ x, (f x).accountId = x.accountId ∧ (f x).row.key = x.row.key) :
    (rowsAt (items.map f) b).map (·.key) = (rowsAt items b).map (·.key) := by
  induction items with
  | nil => rfl
  | cons x items ih =>
    simp only [rowsAt, map_cons, filter_cons, (hf x).1] at ih ⊢
    by_cases hb : x.accountId = b
    · simpa [hb, (hf x).2] using ih
    · simpa [hb] using ih

theorem rowsAt_map_key_upsertItem (h : upsertItem items a r = some items') (hn : ((rowsAt items b).map (·.key)).Nodup) :
    ((rowsAt items' b).map (·.key)).Nodup := by
  simp only [upsertItem] at h
  split at h
  · cases h
  split at h
  · cases h
    rwa [rowsAt_map_key_map fun x => ?_]
    split
    · next hx => exact ⟨hx.1.symm, hx.2.symm⟩
    · exact ⟨rfl, rfl⟩
  next hany =>
  cases h
  have hfresh : ∀ y ∈ items, y.accountId = a → y.row.key ≠ r.key := by simpa using hany
  by_cases hb : a = b
  · subst hb
    have : rowsAt (items ++ [⟨a, r⟩]) a = rowsAt items a ++ [r] := by simp [rowsAt]
    rw [this, map_append, nodup_append]
    refine ⟨hn, by simp, ?_⟩
    intro k hk k' hk' e
    obtain ⟨y, hy, rfl⟩ := mem_map.mp hk
    have hk' : k' = r.key := by simpa using hk'
    exact hfresh _ (mem_rowsAt.mp hy) rfl (e.trans hk')
  · have : rowsAt (items ++ [⟨a, r⟩]) b = rowsAt items b := by simp [rowsAt, hb]
    rwa [this]

/-! ### What one push, pull or delete does -/

section
variable [Blob δ] {a : Nat} {now quota : Int}

theorem pushItem_ok {st st' : PushState δ} {item : PushItem δ}
    (h : pushItem a quota now st item = .ok st') :
    upsertItem st.items a ⟨st.nextSeq + 1, item.key, item.data, now⟩ = some st'.items ∧
      st'.nextSeq = st.nextSeq + 1 ∧ st'.results = st.results ++ [(item.key, st.nextSeq + 1)] ∧
      st'.current ≤ quota := by
  simp only [pushItem] at h
  split at h
  · cases h
  next hq =>
  split at h
  · cases h
  · next items hup => cases h; exact ⟨hup, rfl, rfl, not_lt.mp hq⟩

theorem pushSql_ok {db db' : Db δ} {items : List (PushItem δ)} {out : PushOut} (h : pushSql db a items quota now = .ok (out, db')) :
    ∃ acc st, db.account? a = some acc ∧
      pushItems a quota now ⟨db.syncItems, acc.usedBytes, acc.nextSeq, []⟩ items = .ok st ∧
      out = ⟨st.results, st.nextSeq⟩ ∧
      db' = { db with syncItems := st.items }.updateAccount a fun x =>
        { x with nextSeq := st.nextSeq, usedBytes := st.current } := by
  simp only [pushSql] at h
  split at h
  · cases h
  split at h
  · cases h
  split at h
  · cases h
  next acc hacc =>
  split at h
  · cases h
  next st hst =>
  cases h
  exact ⟨acc, st, hacc, hst, rfl, rfl⟩

end

theorem pullSql_ok {db : Db δ} {after limit : Nat} {out : PullOut δ}
    (h : pullSql db a after limit = .ok out) :
    out.items = page SyncRow.seq after limit (db.rowsOf a) ∧ out.latestSeq = db.nextSeq a ∧
      (out.more = true ↔ cutOff SyncRow.seq after limit (db.rowsOf a) ≠ []) := by
  simp only [pullSql] at h
  split at h
  · cases h
  next acc hacc =>
  cases h
  refine ⟨?_, by simp [Db.nextSeq, hacc], ?_⟩
  · simp only [page, take_take]
    split
    · rw [Nat.min_eq_left (by omega)]
    · next hle =>
      simp only [length_take] at hle
      rw [take_of_length_le (by omega), take_of_length_le (by omega)]
  · rw [ne_eq, cutOff_eq_nil_iff, decide_eq_true_eq, page, length_take]
    omega

end Bluetalk.Relay

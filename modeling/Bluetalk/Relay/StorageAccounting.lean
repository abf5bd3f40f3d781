import Mathlib.Algebra.BigOperators.Group.List.Basic
import Mathlib.Algebra.GroupWithZero.Nat
import Bluetalk.Relay.AccountJobs

/-!
# The bytes that an account uses

`used_bytes` is kept from the old size of a row, which `push_sql` and `delete_keys_sql` take with
`length(data)`, and the new size, which is the number of bytes. Where the two measures agree on the
rows that are replaced or deleted the counter is the sum of the lengths of the live items.
-/

open List

namespace Bluetalk.Relay

variable {δ : Type} {items items' : List (ItemRow δ)} {a b : Nat} {key : String} {r : SyncRow δ}

theorem rowsAt_filter_key : rowsAt (items.filter fun y => ¬(y.accountId = a ∧ y.row.key = key)) a =
    (rowsAt items a).filter fun r => r.key ≠ key := by
  rw [rowsAt, rowsAt, filter_filter, filter_map, filter_filter]
  congr 1
  refine filter_congr fun x _ => ?_
  by_cases hx : x.accountId = a <;> simp [hx]

theorem rowsAt_filter_other (hb : b ≠ a) :
    rowsAt (items.filter fun y => ¬(y.accountId = a ∧ y.row.key = key)) b = rowsAt items b := by
  rw [rowsAt, rowsAt, filter_filter]
  congr 1
  refine filter_congr fun x _ => ?_
  by_cases hx : x.accountId = b <;> simp [hx, hb]

variable [Blob δ] {l : List (SyncRow δ)} {now quota : Int} {st st' : PushState δ}
  {pushed : List (PushItem δ)} {total : Nat} {names : List String}

/-- Both measures of a value agree. -/
def measured (data : δ) : Bool := Blob.sqlLength data = Blob.len data

/-- The bytes of rows of one account. -/
def bytesOfRows (rows : List (SyncRow δ)) : Nat := (rows.map fun r => Blob.len r.data).sum

def bytesAt (items : List (ItemRow δ)) (a : Nat) : Nat := bytesOfRows (rowsAt items a)

/-- The row under a key and the others. -/
def lenAt (items : List (ItemRow δ)) (a : Nat) (key : String) : Nat :=
  ((findItem items a key).map fun x => Blob.len x.row.data).getD 0

namespace AccountStore

/-- The quota is an `i64` that is not negative. -/
abbrev Quota := Fin (2 ^ 63)

variable (quota : Quota)

/-- The rows that the job replaces or deletes are measured alike by both measures, and the total does
not leave the range of an `i64`. -/
def measures (s : AccountStore δ) : AccountJob δ → Bool
  | .push a items _ =>
    (s.db.rowsOf a).all (fun r => items.all fun item => item.key ≠ r.key || measured r.data) &&
      items.Pairwise (fun x y => x.key = y.key → measured x.data) &&
      ((quota : Int) < i64Max ||
        (bytesAt s.db.syncItems a + (items.map fun x => Blob.len x.data).sum : Nat) ≤ i64Max)
  | .deleteKeys a names => (s.db.rowsOf a).all fun r => r.key ∉ names || measured r.data
  | _ => true

/-- The counter of every account is the number of bytes of its live items, and a push or a delete
that fails changes nothing. -/
structure Accounted (hashes : AccountHashes) (keys : RegisterKeys) (s : AccountStore δ) : Prop where
  used : ∀ x ∈ s.db.accounts, x.usedBytes = bytesAt s.db.syncItems x.id
  within : ∀ x ∈ s.db.accounts, x.usedBytes ≤ (quota : Int)
  push : ∀ a items now e, pushSql s.db a items quota now = .error e →
    s.handle hashes keys quota (.push a items now) = (.push (.error e), s)
  delete : ∀ a names e, deleteKeysSql s.db a names = .error e →
    s.handle hashes keys quota (.deleteKeys a names) = (.deleteKeys (.error e), s)

end AccountStore

/-! ## Sums over rows -/

theorem bytesOfRows_perm {l' : List (SyncRow δ)} (h : l.Perm l') :
    bytesOfRows l = bytesOfRows l' := (h.map _).sum_eq

theorem bytesOfRows_split (h : (l.map (·.key)).Nodup) :
    bytesOfRows l = ((l.find? fun r => r.key = key).map fun r => Blob.len r.data).getD 0 +
      bytesOfRows (l.filter fun r => r.key ≠ key) := by
  induction l with
  | nil => rfl
  | cons r l ih =>
    rw [map_cons, nodup_cons] at h
    by_cases hr : r.key = key
    · have hrest : l.filter (fun r => r.key ≠ key) = l := by
        refine filter_eq_self.mpr fun y hy => ?_
        have hne : y.key ≠ key := fun e => h.1 (mem_map.mpr ⟨y, hy, e.trans hr.symm⟩)
        simpa using hne
      have hskip : (r :: l).filter (fun r => r.key ≠ key) = l := by
        rw [filter_cons_of_neg (by simpa using hr), hrest]
      rw [hskip, find?_cons_of_pos (by simpa using hr)]
      rfl
    · rw [filter_cons_of_pos (by simpa using hr), find?_cons_of_neg (by simpa using hr)]
      have ih := ih h.2
      simp only [bytesOfRows, map_cons, sum_cons] at ih ⊢
      omega

theorem lenAt_eq : lenAt items a key =
    (((rowsAt items a).find? fun r => r.key = key).map fun r => Blob.len r.data).getD 0 := by
  rw [lenAt, findItem, rowsAt, find?_map, find?_filter]
  simp only [Function.comp_def, Option.map_map]
  congr 3
  funext x
  simp

theorem bytesAt_split (key : String) (h : ((rowsAt items a).map (·.key)).Nodup) :
    bytesAt items a = lenAt items a key +
      bytesOfRows ((rowsAt items a).filter fun r => r.key ≠ key) := by
  rw [lenAt_eq]
  exact bytesOfRows_split h

theorem bytesAt_upsertItem (h : upsertItem items a r = some items')
    (hn : ((rowsAt items a).map (·.key)).Nodup) :
    bytesAt items' a + lenAt items a r.key = bytesAt items a + Blob.len r.data := by
  have hperm : (rowsAt items' a).Perm (r :: (rowsAt items a).filter fun x => x.key ≠ r.key) := by
    refine (perm_ext_iff_of_nodup ((rowsAt_map_key_upsertItem h hn).of_map _) ?_).mpr fun x => ?_
    · refine nodup_cons.mpr ⟨fun hr => ?_, (hn.of_map _).filter _⟩
      simpa using (mem_filter.mp hr).2
    · rw [mem_rowsAt_upsertItem h, mem_cons, mem_filter]
      simp
  rw [bytesAt, bytesOfRows_perm hperm, bytesAt_split r.key hn]
  simp only [bytesOfRows, map_cons, sum_cons]
  omega

theorem bytesAt_upsertItem_other (hb : b ≠ a) (h : upsertItem items a r = some items')
    (hn : ((rowsAt items b).map (·.key)).Nodup) : bytesAt items' b = bytesAt items b := by
  refine bytesOfRows_perm ((perm_ext_iff_of_nodup
    ((rowsAt_map_key_upsertItem h hn).of_map _) (hn.of_map _)).mpr fun x => ?_)
  rw [mem_rowsAt_upsertItem h]
  simp [hb]

/-! ## The loop of a push -/

theorem saturate_eq {x : Int} (h : 0 ≤ x) : saturate x = min i64Max x := by
  rw [saturate, max_eq_right]
  exact le_min (by decide) (le_trans (by decide) h)

theorem lenAt_le (hn : ((rowsAt items a).map (·.key)).Nodup) :
    lenAt items a key ≤ bytesAt items a := by
  rw [bytesAt_split key hn]
  exact Nat.le_add_right _ _

theorem sqlLength_eq_lenAt (h : ∀ r ∈ rowsAt items a, key = r.key → measured r.data) :
    ((findItem items a key).map fun x => Blob.sqlLength x.row.data).getD 0 = lenAt items a key := by
  rw [lenAt]
  cases hfind : findItem items a key with
  | none => rfl
  | some x =>
    obtain ⟨hid, hkey, hx⟩ := findItem_eq_some hfind
    have hmem : x.row ∈ rowsAt items a := by
      rw [mem_rowsAt, ← hid]
      exact hx
    simpa [measured] using h x.row hmem hkey.symm

theorem pushItem_used {item : PushItem δ}
    (h : pushItem a quota now st item = .ok st') (hn : ((rowsAt st.items a).map (·.key)).Nodup)
    (hcurrent : st.current = bytesAt st.items a) (hquota : st.current ≤ quota)
    (hi64 : quota ≤ i64Max)
    (hrows : ∀ r ∈ rowsAt st.items a, item.key = r.key → measured r.data)
    (hroom : quota < i64Max ∨ (bytesAt st.items a : Int) + Blob.len item.data ≤ i64Max) :
    st'.current = bytesAt st'.items a ∧ st'.current ≤ quota := by
  have hupsert := (pushItem_ok h).1
  have hsum := bytesAt_upsertItem hupsert hn
  have hle : lenAt st.items a item.key ≤ bytesAt st.items a := lenAt_le hn
  simp only [pushItem, sqlLength_eq_lenAt hrows] at h
  split at h
  · cases h
  next hnot =>
  split at h
  · cases h
  cases h
  refine ⟨?_, not_lt.mp hnot⟩
  simp only at hsum ⊢
  rw [saturatingSub, saturate_eq (by omega), min_eq_right (by omega), saturatingAdd,
    saturate_eq (by omega)] at hnot ⊢
  rw [min_eq_right] at hnot ⊢ <;> omega

theorem pushItems_used (h : pushItems a quota now st pushed = .ok st') (hn : ((rowsAt st.items a).map (·.key)).Nodup)
    (hcurrent : st.current = bytesAt st.items a) (hquota : st.current ≤ quota)
    (hi64 : quota ≤ i64Max)
    (hrows : ∀ r ∈ rowsAt st.items a, ∀ item ∈ pushed, item.key = r.key → measured r.data)
    (hpushed : pushed.Pairwise fun x y => x.key = y.key → measured x.data)
    (hroom : quota < i64Max ∨
      (bytesAt st.items a + (pushed.map fun x => Blob.len x.data).sum : Nat) ≤ i64Max) :
    st'.current = bytesAt st'.items a ∧ st'.current ≤ quota := by
  induction pushed generalizing st with
  | nil => cases h; exact ⟨hcurrent, hquota⟩
  | cons item pushed ih =>
    obtain ⟨st₁, hst₁, h⟩ := pushItems_cons_ok h
    have hupsert := (pushItem_ok hst₁).1
    rw [pairwise_cons] at hpushed
    rw [map_cons, sum_cons] at hroom
    obtain ⟨hcurrent₁, hquota₁⟩ := pushItem_used hst₁ hn hcurrent hquota hi64
      (fun r hr => hrows r hr item mem_cons_self) (hroom.imp_right fun h => by omega)
    refine ih h (rowsAt_map_key_upsertItem hupsert hn) hcurrent₁ hquota₁ ?_ hpushed.2 ?_
    · intro r hr x hx hkey
      rcases (mem_rowsAt_upsertItem hupsert).mp hr with ⟨-, rfl⟩ | ⟨hr, -⟩
      · exact hpushed.1 x hx hkey.symm
      · exact hrows r hr x (mem_cons_of_mem _ hx) hkey
    · have hsum := bytesAt_upsertItem hupsert hn
      simp only at hsum
      exact hroom.imp_right fun h => by omega

theorem pushItems_used_other (hb : b ≠ a) (h : pushItems a quota now st pushed = .ok st')
    (hn : ((rowsAt st.items b).map (·.key)).Nodup) : bytesAt st'.items b = bytesAt st.items b := by
  induction pushed generalizing st with
  | nil => cases h; rfl
  | cons item pushed ih =>
    obtain ⟨st₁, hst₁, h⟩ := pushItems_cons_ok h
    have hupsert := (pushItem_ok hst₁).1
    rw [ih h (rowsAt_map_key_upsertItem hupsert hn), bytesAt_upsertItem_other hb hupsert hn]

/-! ## The loop of a delete -/

theorem deleteKey_used {st : DeleteState δ} (hn : ((rowsAt st.items a).map (·.key)).Nodup) (hi64 : (total : Int) ≤ i64Max)
    (hfreed : (bytesAt st.items a : Int) + st.freed = total) (hpos : 0 ≤ st.freed)
    (hnone : st.n = 0 → st.freed = 0)
    (hrows : ∀ r ∈ rowsAt st.items a, key = r.key → measured r.data) :
    (bytesAt (deleteKey a st key).items a : Int) + (deleteKey a st key).freed = total ∧
      0 ≤ (deleteKey a st key).freed ∧
      ((deleteKey a st key).n = 0 → (deleteKey a st key).freed = 0) := by
  have hlen := sqlLength_eq_lenAt hrows
  rw [deleteKey]
  split
  · exact ⟨hfreed, hpos, hnone⟩
  cases hfind : findItem st.items a key with
  | none => exact ⟨hfreed, hpos, hnone⟩
  | some x =>
    simp only [hfind, Option.map_some, Option.getD_some] at hlen
    have hsplit := bytesAt_split key hn
    have hbytes : bytesAt (st.items.filter fun y => ¬(y.accountId = a ∧ y.row.key = key)) a =
        bytesOfRows ((rowsAt st.items a).filter fun r => r.key ≠ key) := by
      rw [bytesAt, rowsAt_filter_key]
    simp only [hbytes, hlen]
    rw [saturatingAdd, saturate_eq (by omega), min_eq_right (by omega)]
    exact ⟨by omega, by omega, fun h => absurd h (Nat.succ_ne_zero _)⟩

theorem deleteKeys_used {st : DeleteState δ} (hn : ((rowsAt st.items a).map (·.key)).Nodup) (hi64 : (total : Int) ≤ i64Max)
    (hfreed : (bytesAt st.items a : Int) + st.freed = total) (hpos : 0 ≤ st.freed)
    (hnone : st.n = 0 → st.freed = 0)
    (hrows : ∀ r ∈ rowsAt st.items a, r.key ∈ names → measured r.data) :
    (bytesAt (names.foldl (deleteKey a) st).items a : Int) + (names.foldl (deleteKey a) st).freed =
      total ∧ 0 ≤ (names.foldl (deleteKey a) st).freed ∧
      ((names.foldl (deleteKey a) st).n = 0 → (names.foldl (deleteKey a) st).freed = 0) := by
  induction names generalizing st with
  | nil => exact ⟨hfreed, hpos, hnone⟩
  | cons key names ih =>
    have hsub : (rowsAt (deleteKey a st key).items a).Sublist (rowsAt st.items a) :=
      deleteKeys_sublist [key]
    obtain ⟨hfreed₁, hpos₁, hnone₁⟩ := deleteKey_used hn hi64 hfreed hpos hnone fun r hr hkey =>
      hrows r hr (hkey ▸ mem_cons_self)
    exact ih (hn.sublist (hsub.map _)) hfreed₁ hpos₁ hnone₁ fun r hr hkey =>
      hrows r (hsub.subset hr) (mem_cons_of_mem _ hkey)

theorem deleteKeys_used_other {st : DeleteState δ} (hb : b ≠ a) :
    rowsAt (names.foldl (deleteKey a) st).items b = rowsAt st.items b := by
  induction names generalizing st with
  | nil => rfl
  | cons key names ih =>
    refine ih.trans ?_
    rw [deleteKey]
    split
    · rfl
    split
    · rfl
    · exact rowsAt_filter_other hb

/-! ## The counters of all accounts -/

def Db.Used (quota : Int) (db : Db δ) : Prop :=
  ∀ x ∈ db.accounts, x.usedBytes = bytesAt db.syncItems x.id ∧ x.usedBytes ≤ quota

namespace Db.Used

variable {quota : Int} {db db' : Db δ} {hashes : AccountHashes} {authKey deviceName token : String}
  {now : Int}

theorem same (H : db.Used quota) (haccounts : db'.accounts = db.accounts)
    (hitems : db'.syncItems = db.syncItems) : db'.Used quota := by
  intro x hx
  rw [hitems]
  exact H x (haccounts ▸ hx)

theorem updateAccount (H : db.Used quota) {f : AccountRow → AccountRow}
    (hf : ∀ x, (f x).id = x.id ∧ (f x).usedBytes = x.usedBytes) :
    (db.updateAccount a f).Used quota := by
  intro y hy
  obtain ⟨x, hx, rfl⟩ := mem_map.mp hy
  split
  · rw [(hf x).1, (hf x).2]
    exact H x hx
  · exact H x hx

theorem login {username : String} (H : db.Used quota) :
    (loginSql hashes db username authKey deviceName token now).2.Used quota := by
  have hframe := loginSql_frame hashes db username authKey deviceName token now
  exact H.same hframe.1 hframe.2.1

theorem auth (H : db.Used quota) :
    (authSql hashes db token now).2.Used quota := by
  have hframe := authSql_frame hashes db token now
  exact H.same hframe.1 hframe.2.1

theorem logout (H : db.Used quota) :
    (logoutSql hashes db token).2.Used quota := by
  have hframe := logoutSql_frame hashes db token
  exact H.same hframe.1 hframe.2.1

theorem issueToken (H : db.Used quota) : (issueToken hashes db a deviceName token now).2.Used quota := by
  have hframe := issueToken_frame hashes db a deviceName token now
  exact H.same hframe.1 hframe.2.1

theorem password {input : PasswordIn} (H : db.Used quota) :
    (passwordSql hashes db a input deviceName token now).2.Used quota := by
  rcases passwordSql_eq hashes db a input deviceName token now with
    ⟨-, e, h⟩ | ⟨-, x, authKeyHash, kdf, vault, -, h⟩
  · rw [h]
    exact H
  rw [h]
  refine issueToken ?_
  exact (H.updateAccount (f := fun x => { x with authKeyHash, kdf, vault })
    fun _ => ⟨rfl, rfl⟩).same rfl rfl

theorem register {s : AccountStore δ} {keys : RegisterKeys}
    {input : RegisterIn} (H : s.db.Used quota) (hwf : s.Wf)
    (hquota : 0 ≤ quota) : (registerSql hashes keys s input token now).2.db.Used quota := by
  rcases registerSql_eq hashes keys s input token now with
    ⟨e, h⟩ | ⟨x, -, -, -, hused, _, rfl, h, -⟩
  · rw [h]
    exact H
  rw [h]
  refine issueToken fun y hy => ?_
  rcases mem_append.mp hy with hy | hy
  · exact H y hy
  have hnone : bytesAt s.db.syncItems (s.lastId + 1) = 0 := by
    have hrows := hwf.rowsOf_above (Nat.lt_succ_self s.lastId)
    rw [Db.rowsOf] at hrows
    rw [bytesAt, hrows]
    rfl
  rw [mem_singleton.mp hy]
  simp only [AccountStore.insertAccount, hused, hnone]
  exact ⟨rfl, hquota⟩

theorem deleteAccount (H : db.Used quota)
    (h : deleteAccountSql hashes db a authKey = .ok db') : db'.Used quota := by
  simp only [deleteAccountSql] at h
  split at h
  · cases h
  split at h
  · cases h
  cases h
  intro x hx
  obtain ⟨hx, hne⟩ := mem_filter.mp hx
  have hrows : rowsAt (db.syncItems.filter fun y => ¬y.accountId = a) x.id =
      rowsAt db.syncItems x.id := by
    rw [rowsAt, rowsAt, filter_filter]
    congr 1
    refine filter_congr fun y _ => ?_
    by_cases hy : y.accountId = x.id <;> simp [hy, hne]
  rw [bytesAt, hrows]
  exact H x hx

theorem push {pushed : List (PushItem δ)} {out : PushOut} (H : db.Used quota)
    (hlog : ∀ b, db.LogInv b) (hi64 : quota ≤ i64Max)
    (hrows : ∀ r ∈ db.rowsOf a, ∀ item ∈ pushed, item.key = r.key → measured r.data)
    (hpushed : pushed.Pairwise fun x y => x.key = y.key → measured x.data)
    (hroom : quota < i64Max ∨
      (bytesAt db.syncItems a + (pushed.map fun x => Blob.len x.data).sum : Nat) ≤ i64Max)
    (h : pushSql db a pushed quota now = .ok (out, db')) : db'.Used quota := by
  obtain ⟨acc, st, hacc, hst, rfl, rfl⟩ := pushSql_ok h
  obtain ⟨hmem, rfl⟩ := AccountStore.Wf.mem_of_account hacc
  obtain ⟨hcurrent, hquota⟩ := pushItems_used hst (hlog acc.id).keys (H acc hmem).1 (H acc hmem).2
    hi64 hrows hpushed hroom
  intro y hy
  obtain ⟨x, hx, rfl⟩ := mem_map.mp hy
  split
  next hid =>
    refine ⟨?_, hquota⟩
    rw [hcurrent]
    simp only [hid, Db.updateAccount_syncItems]
  next hid =>
  simp only [Db.updateAccount_syncItems]
  rw [pushItems_used_other hid hst (hlog x.id).keys]
  exact H x hx

theorem deleteKeys {names : List String} {n : Nat} (H : db.Used quota) (hlog : ∀ b, db.LogInv b)
    (hi64 : quota ≤ i64Max) (hrows : ∀ r ∈ db.rowsOf a, r.key ∈ names → measured r.data)
    (h : deleteKeysSql db a names = .ok (n, db')) : db'.Used quota := by
  simp only [deleteKeysSql] at h
  split at h
  · cases h
  cases h
  -- an account that is there: what it has left and what was freed are what it had
  have hself : ∀ x ∈ db.accounts, x.id = a →
      (bytesAt (names.foldl (deleteKey a) ⟨db.syncItems, 0, 0⟩).items a : Int) +
        (names.foldl (deleteKey a) ⟨db.syncItems, 0, 0⟩).freed = x.usedBytes ∧
      0 ≤ (names.foldl (deleteKey a) ⟨db.syncItems, 0, 0⟩).freed ∧
      ((names.foldl (deleteKey a) ⟨db.syncItems, 0, 0⟩).n = 0 →
        (names.foldl (deleteKey a) ⟨db.syncItems, 0, 0⟩).freed = 0) := by
    intro x hx hid
    obtain ⟨hused, hquota⟩ := H x hx
    rw [hid] at hused
    rw [hused]
    exact deleteKeys_used (hlog a).keys (by omega) (by simp) le_rfl (fun _ => rfl) hrows
  intro y hy
  split at hy
  next hn =>
    obtain ⟨x, hx, rfl⟩ := mem_map.mp hy
    obtain ⟨hused, hquota⟩ := H x hx
    split
    next hid =>
      obtain ⟨htotal, hpos, -⟩ := hself x hx hid
      simp only [Db.updateAccount_syncItems, hid]
      exact ⟨by omega, by omega⟩
    next hid =>
    simp only [Db.updateAccount_syncItems]
    rw [bytesAt, deleteKeys_used_other hid]
    exact H x hx
  next hn =>
  rw [if_neg hn]
  obtain ⟨hused, hquota⟩ := H y hy
  refine ⟨?_, hquota⟩
  by_cases hid : y.id = a
  · obtain ⟨htotal, -, hnone⟩ := hself y hy hid
    simp only [hid]
    omega
  · simp only
    rw [bytesAt, deleteKeys_used_other hid]
    exact hused

end Db.Used

namespace AccountStore

variable {hashes : AccountHashes} {keys : RegisterKeys} {quota : Quota} {s s' : AccountStore δ}

theorem Quota.le_i64Max (quota : Quota) : ((quota : Nat) : Int) ≤ i64Max := by
  rw [i64Max]
  omega

theorem used_handle (hwf : s.Wf) (H : s.db.Used quota) {job : AccountJob δ}
    (hmeasures : s.measures quota job) : (s.handle hashes keys quota job).2.db.Used quota := by
  cases job with
  | register => exact H.register hwf (Int.natCast_nonneg _)
  | login => exact H.login
  | auth => exact H.auth
  | logout => exact H.logout
  | password => exact H.password
  | deleteAccount a authKey =>
    rw [handle]
    split
    · exact H
    next h => exact H.deleteAccount h
  | push a items now =>
    simp only [measures, Bool.and_eq_true, Bool.or_eq_true, decide_eq_true_eq, all_eq_true]
      at hmeasures
    obtain ⟨⟨hrows, hpushed⟩, hroom⟩ := hmeasures
    rw [handle]
    split
    · exact H
    next h =>
    exact H.push hwf.log quota.le_i64Max
      (fun r hr item hitem hkey => (hrows r hr item hitem).resolve_left (not_not.mpr hkey))
      hpushed hroom h
  | deleteKeys a names =>
    simp only [measures, Bool.or_eq_true, decide_eq_true_eq, all_eq_true] at hmeasures
    rw [handle]
    split
    · exact H
    next h =>
    exact H.deleteKeys hwf.log quota.le_i64Max
      (fun r hr hkey => (hmeasures r hr).resolve_left (not_not.mpr hkey)) h

/-- The counters are right as long as every row that is replaced or deleted has the same length by
both measures. -/
theorem run_accounted {jobs : List (AccountJob δ)}
    (h : Run (step hashes keys quota) (fun s job => s.measures quota job = true) {} jobs s) :
    s.Accounted quota hashes keys := by
  have hinv : s.Wf ∧ s.db.Used quota := by
    refine h.invariant (I := fun s => s.Wf ∧ s.db.Used quota)
      (fun {s job s'} hmeasures hs hstep => ?_) ⟨.empty, fun _ hx => absurd hx not_mem_nil⟩
    cases hstep
    exact ⟨hs.1.handle job, used_handle hs.1 hs.2 hmeasures⟩
  constructor
  · exact fun x hx => (hinv.2 x hx).1
  · exact fun x hx => (hinv.2 x hx).2
  · intro a items now e h
    rw [handle, h]
  · intro a names e h
    rw [handle, h]

/-- In every run ids are unique, tokens and items have accounts, and the logs are in order. -/
theorem store_wf {jobs : List (AccountJob δ)} : Always (step hashes keys quota) Wf {} jobs := by
  refine Run.always (fun H h => ?_) .empty
  cases h
  exact H.handle _

/-- Two items of the letter a, the second in the place of the first, and a delete. -/
theorem run_accounted_replaced : ∃ jobs s,
    Run (step sampleHashes sampleKeys 100) (fun s job => s.measures 100 job = true) {} jobs s ∧
    s.db.accounts.map (fun x => (x.usedBytes, x.nextSeq)) = [(2, 3)] ∧
    Accounted 100 sampleHashes sampleKeys (s : AccountStore String) := by
  let jobs : List (AccountJob String) := [sampleAccount, .push 1 [⟨"k", "a"⟩, ⟨"l", "aa"⟩] 1,
    .push 1 [⟨"k", "aaa"⟩] 2, .deleteKeys 1 ["k", "k"]]
  have hrun : (exec (step sampleHashes sampleKeys 100) {} jobs).map
      (fun s => s.db.accounts.map fun x => (x.usedBytes, x.nextSeq)) = some [(2, 3)] := by
    decide +kernel
  have hok : allowed (step sampleHashes sampleKeys 100) (fun s job => s.measures 100 job) {} jobs =
      true := by
    decide +kernel
  obtain ⟨s, hs, hused⟩ := Option.map_eq_some_iff.mp hrun
  exact ⟨jobs, s, Run.of_allowed hok hs, hused, run_accounted (Run.of_allowed hok hs)⟩

/-- The same letter beyond ASCII is pushed twice under one key: it has two bytes and is counted with
three. -/
theorem replaced_umlaut_miscounted : ¬ ∀ jobs s, FreeRun (step sampleHashes sampleKeys 100) {} jobs s →
    Accounted 100 sampleHashes sampleKeys (s : AccountStore String) := by
  intro h
  let jobs : List (AccountJob String) := [sampleAccount, .push 1 [⟨"k", "ä"⟩] 1, .push 1 [⟨"k", "ä"⟩] 2]
  have hrun : (exec (step sampleHashes sampleKeys 100) {} jobs).map
      (fun s => s.db.accounts.any fun x => x.usedBytes ≠ bytesAt s.db.syncItems x.id) =
        some true := by
    decide +kernel
  obtain ⟨s, hs, hused⟩ := Option.map_eq_some_iff.mp hrun
  obtain ⟨x, hx, hne⟩ := any_eq_true.mp hused
  exact of_decide_eq_true hne ((h jobs s (.of_exec hs)).used x hx)

end AccountStore

end Bluetalk.Relay

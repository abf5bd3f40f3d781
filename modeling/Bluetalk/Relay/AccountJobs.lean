import Bluetalk.Relay.Accounts
import Bluetalk.Relay.SyncLogInvariants

/-!
# The jobs of the account store

`register_sql`, `delete_account_sql` and the `handle` of `relay/src/accounts.rs`: the thread that owns
the database takes one job after the other. The key of the peer and the signature are a parameter
(`RegisterKeys`); an id that AUTOINCREMENT gave is never given again, so the highest one is part of
the state. A statement that the database refuses on its own account is not modelled.
-/

open List Option

namespace Bluetalk.Relay

structure RegisterKeys where
  /-- `peer_id_from_pubkey` of the 32 bytes that `decode_b64` finds -/
  peerIdFromPubkey : String → Option String
  /-- `verify_register_sig`: the public key, the signature, the name and the `authKey` -/
  verifyRegisterSig : String → String → String → String → Bool

structure RegisterIn where
  username : String
  kdf : Kdf
  authKey : String
  vault : String
  publicKey : String
  signature : String
  deviceName : String

structure RegisterOut where
  token : String
  username : String
  peerId : String

structure AccountStore (δ : Type) where
  db : Db δ := ⟨[], [], []⟩
  /-- `sqlite_sequence` -/
  lastId : Nat := 0

inductive AccountJob (δ : Type)
  | register (input : RegisterIn) (token : String) (now : Int)
  | login (username authKey deviceName token : String) (now : Int)
  | auth (token : String) (now : Int)
  | logout (token : String)
  | password (a : Nat) (input : PasswordIn) (deviceName token : String) (now : Int)
  | deleteAccount (a : Nat) (authKey : String)
  | push (a : Nat) (items : List (PushItem δ)) (now : Int)
  | deleteKeys (a : Nat) (keys : List String)

/-- The replies of the jobs. -/
inductive AccountReply
  | register (out : Except AccountError RegisterOut)
  | login (out : Except AccountError LoginOut)
  | auth (out : Except AccountError Session)
  | logout (out : Except AccountError Unit)
  | password (out : Except AccountError String)
  | deleteAccount (out : Except AccountError Unit)
  | push (out : Except AccountError PushOut)
  | deleteKeys (out : Except AccountError Nat)

variable {δ : Type}

/-- `INSERT INTO accounts` -/
def AccountStore.insertAccount (s : AccountStore δ) (x : AccountRow) : AccountStore δ where
  db := { s.db with accounts := s.db.accounts ++ [{ x with id := s.lastId + 1 }] }
  lastId := s.lastId + 1

def registerSql (hashes : AccountHashes) (keys : RegisterKeys) (s : AccountStore δ)
    (input : RegisterIn) (token : String) (now : Int) :
    Except AccountError RegisterOut × AccountStore δ :=
  match parseKdf hashes input.kdf, hashes.hashAuthKey input.authKey, vaultJson input.vault,
    keys.peerIdFromPubkey input.publicKey with
  | some kdf, some authKeyHash, .ok vault, some peerId =>
    if !keys.verifyRegisterSig input.publicKey input.signature input.username input.authKey then
      (.error .invalid, s)
    else if (s.db.accountNamed? input.username).isSome then (.error .usernameTaken, s)
    else if s.db.accounts.any fun x => x.peerId = peerId then (.error .peerTaken, s)
    else
      let s := s.insertAccount ⟨0, input.username, peerId, authKeyHash, kdf, vault, 0, 0⟩
      match issueToken hashes s.db s.lastId input.deviceName token now with
      | (.error e, db) => (.error e, { s with db })
      | (.ok token, db) => (.ok ⟨token, input.username, peerId⟩, { s with db })
  | _, _, _, _ => (.error .invalid, s)

/-- The tokens and the items of the account go with it. -/
def deleteAccountSql (hashes : AccountHashes) (db : Db δ) (a : Nat) (authKey : String) :
    Except AccountError (Db δ) :=
  match db.account? a with
  | none => .error .unauthorized
  | some x =>
    if hashes.hashAuthKey authKey ≠ some x.authKeyHash then .error .invalidCredentials
    else .ok {
      accounts := db.accounts.filter fun x => ¬x.id = a
      accountTokens := db.accountTokens.filter fun t => ¬t.accountId = a
      syncItems := db.syncItems.filter fun x => ¬x.accountId = a }

namespace AccountStore
variable [Blob δ] (hashes : AccountHashes) (keys : RegisterKeys) (quota : Nat)

/-- The reply to a job and the database after it; the quota is that of the configuration. -/
def handle (s : AccountStore δ) : AccountJob δ → AccountReply × AccountStore δ
  | .register input token now =>
    let (out, s) := registerSql hashes keys s input token now
    (.register out, s)
  | .login username authKey deviceName token now =>
    let (out, db) := loginSql hashes s.db username authKey deviceName token now
    (.login out, { s with db })
  | .auth token now =>
    let (out, db) := authSql hashes s.db token now
    (.auth out, { s with db })
  | .logout token =>
    let (out, db) := logoutSql hashes s.db token
    (.logout out, { s with db })
  | .password a input deviceName token now =>
    let (out, db) := passwordSql hashes s.db a input deviceName token now
    (.password out, { s with db })
  | .deleteAccount a authKey =>
    match deleteAccountSql hashes s.db a authKey with
    | .error e => (.deleteAccount (.error e), s)
    | .ok db => (.deleteAccount (.ok ()), { s with db })
  | .push a items now =>
    match pushSql s.db a items quota now with
    | .error e => (.push (.error e), s)
    | .ok (out, db) => (.push (.ok out), { s with db })
  | .deleteKeys a keys =>
    match deleteKeysSql s.db a keys with
    | .error e => (.deleteKeys (.error e), s)
    | .ok (n, db) => (.deleteKeys (.ok n), { s with db })

def step (s : AccountStore δ) (job : AccountJob δ) : Option (AccountStore δ) :=
  some (s.handle hashes keys quota job).2

end AccountStore

/-- Hashing that keeps its argument, for concrete runs. -/
def sampleHashes : AccountHashes where
  hashAuthKey := some
  hashToken := some
  saltLength _ := some 16
  fakeKdf _ := ⟨"pbkdf2-sha256", kdfIterations, ""⟩

def sampleKeys : RegisterKeys where
  peerIdFromPubkey := some
  verifyRegisterSig _ _ _ _ := true

def sampleAccount : AccountJob String :=
  .register ⟨"u", ⟨"pbkdf2-sha256", kdfIterations, "s"⟩, "k", "\x7b\x7d", "p", "", ""⟩ "t" 0

/-! ## The references between the tables -/

/-- Ids are unique and never above the last one given; tokens and items belong to accounts; the log
of every account is in order. -/
structure AccountStore.Wf (s : AccountStore δ) : Prop where
  ids : ∀ x ∈ s.db.accounts, x.id ≤ s.lastId
  nodup : (s.db.accounts.map (·.id)).Nodup
  tokens : ∀ t ∈ s.db.accountTokens, ∃ x ∈ s.db.accounts, x.id = t.accountId
  items : ∀ i ∈ s.db.syncItems, ∃ x ∈ s.db.accounts, x.id = i.accountId
  log : ∀ a, s.db.LogInv a

namespace AccountStore.Wf

variable {s : AccountStore δ} {a : Nat} {db : Db δ} {hashes : AccountHashes} {now : Int}
  {token deviceName username authKey : String} {x : AccountRow}

theorem empty : Wf ({} : AccountStore δ) where
  ids _ h := absurd h not_mem_nil
  nodup := .nil
  tokens _ h := absurd h not_mem_nil
  items _ h := absurd h not_mem_nil
  log _ := .empty rfl

theorem account_of_mem (hx : x ∈ s.db.accounts) (hid : x.id = a) :
    ∃ y, s.db.account? a = some y :=
  isSome_iff_exists.mp (find?_isSome.mpr ⟨x, hx, by simpa using hid⟩)

theorem mem_of_account (h : db.account? a = some x) :
    x ∈ db.accounts ∧ x.id = a := ⟨mem_of_find?_eq_some h, Db.account?_id h⟩

theorem tokens_above (H : s.Wf) (h : s.lastId < a) : ∀ t ∈ s.db.accountTokens, t.accountId ≠ a := by
  intro t ht hid
  obtain ⟨x, hx, hx'⟩ := H.tokens t ht
  have := H.ids x hx
  omega

theorem rowsOf_above (H : s.Wf) (h : s.lastId < a) : s.db.rowsOf a = [] := by
  refine eq_nil_iff_forall_not_mem.mpr fun r hr => ?_
  obtain ⟨x, hx, hx'⟩ := H.items _ (mem_rowsAt.mp hr)
  have := H.ids x hx
  have : x.id = a := hx'
  omega

theorem retoken (H : s.Wf) (haccounts : db.accounts = s.db.accounts)
    (hitems : db.syncItems = s.db.syncItems)
    (htokens : ∀ t ∈ db.accountTokens, ∃ x ∈ s.db.accounts, x.id = t.accountId) :
    Wf { s with db } where
  ids := by simpa only [haccounts] using H.ids
  nodup := by simpa only [haccounts] using H.nodup
  tokens := by simpa only [haccounts] using htokens
  items := by simpa only [haccounts, hitems] using H.items
  log b := by
    have hlog := H.log b
    rw [Db.LogInv, Db.nextSeq, Db.account?] at hlog ⊢
    rwa [haccounts, hitems]

theorem deleteTokens (H : s.Wf) (p : TokenRow → Bool) :
    Wf { s with db := s.db.deleteTokens p } :=
  H.retoken rfl rfl fun t ht => H.tokens t (mem_deleteTokens.mp ht).1

theorem issueToken (H : s.Wf) (hx : x ∈ s.db.accounts) (hid : x.id = a) :
    Wf { s with db := (issueToken hashes s.db a deviceName token now).2 } := by
  obtain ⟨haccounts, hitems, htokens⟩ := issueToken_frame hashes s.db a deviceName token now
  refine H.retoken haccounts hitems fun t ht => ?_
  rcases htokens t ht with ht | ⟨-, ht⟩
  · exact H.tokens t ht
  · exact ⟨x, hx, hid.trans ht.symm⟩

theorem updateAccount (H : s.Wf) {f : AccountRow → AccountRow}
    (hf : ∀ x, (f x).id = x.id ∧ (f x).nextSeq = x.nextSeq) :
    Wf { s with db := s.db.updateAccount a f } := by
  have hkeep : ∀ x : AccountRow, (if x.id = a then f x else x).id = x.id := by
    intro x
    split
    · exact (hf x).1
    · rfl
  have hmem : ∀ {b}, (∃ x ∈ s.db.accounts, x.id = b) →
      ∃ x ∈ (s.db.updateAccount a f).accounts, x.id = b := by
    rintro b ⟨x, hx, hid⟩
    exact ⟨_, mem_map_of_mem hx, (hkeep x).trans hid⟩
  constructor
  · intro y hy
    obtain ⟨x, hx, rfl⟩ := mem_map.mp hy
    exact (hkeep x).le.trans (H.ids x hx)
  · have hids : (s.db.updateAccount a f).accounts.map (·.id) = s.db.accounts.map (·.id) := by
      simp only [Db.updateAccount, List.map_map, Function.comp_def, hkeep]
    exact hids ▸ H.nodup
  · exact fun t ht => hmem (H.tokens t ht)
  · exact fun i hi => hmem (H.items i hi)
  · intro b
    have hlog := H.log b
    rw [Db.LogInv] at hlog ⊢
    rwa [Db.nextSeq_updateAccount_of_eq hf]

theorem insertAccount (H : s.Wf) (x : AccountRow) : (s.insertAccount x).Wf := by
  have hmem : ∀ {b}, (∃ y ∈ s.db.accounts, y.id = b) →
      ∃ y ∈ (s.insertAccount x).db.accounts, y.id = b :=
    fun ⟨y, hy, hid⟩ => ⟨y, mem_append_left _ hy, hid⟩
  constructor
  · intro y hy
    rcases mem_append.mp hy with hy | hy
    · exact (H.ids y hy).trans (Nat.le_succ _)
    · rw [mem_singleton.mp hy]
      exact le_rfl
  · rw [AccountStore.insertAccount, map_append, map_singleton, ← concat_eq_append]
    refine H.nodup.concat fun h => ?_
    obtain ⟨y, hy, hid⟩ := mem_map.mp h
    have := H.ids y hy
    simp only at hid
    omega
  · exact fun t ht => hmem (H.tokens t ht)
  · exact fun i hi => hmem (H.items i hi)
  · intro b
    by_cases hb : s.lastId < b
    · exact .empty (H.rowsOf_above hb)
    have hlog := H.log b
    rw [Db.LogInv, Db.nextSeq, Db.account?] at hlog ⊢
    have hne : ¬ s.lastId + 1 = b := by omega
    simpa [AccountStore.insertAccount, find?_append, find?_cons, hne] using hlog

theorem shrink {items : List (ItemRow δ)} (H : s.Wf) (h : items.Sublist s.db.syncItems) :
    Wf { s with db := { s.db with syncItems := items } } where
  ids := H.ids
  nodup := H.nodup
  tokens := H.tokens
  items i hi := H.items i (h.subset hi)
  log b := (H.log b).sublist ((h.filter _).map _) le_rfl

theorem deleteAccount (H : s.Wf) (h : deleteAccountSql hashes s.db a authKey = .ok db) :
    Wf { s with db } := by
  simp only [deleteAccountSql] at h
  split at h
  · cases h
  split at h
  · cases h
  cases h
  have hmem : ∀ {b}, b ≠ a → (∃ y ∈ s.db.accounts, y.id = b) →
      ∃ y ∈ s.db.accounts.filter (fun x => ¬x.id = a), y.id = b := by
    rintro b hb ⟨y, hy, rfl⟩
    exact ⟨y, mem_filter.mpr ⟨hy, by simpa using hb⟩, rfl⟩
  constructor
  · exact fun x hx => H.ids x (mem_filter.mp hx).1
  · exact H.nodup.sublist (filter_sublist.map _)
  · intro t ht
    obtain ⟨ht, hne⟩ := mem_filter.mp ht
    exact hmem (by simpa using hne) (H.tokens t ht)
  · intro i hi
    obtain ⟨hi, hne⟩ := mem_filter.mp hi
    exact hmem (by simpa using hne) (H.items i hi)
  · intro b
    by_cases hb : b = a
    · refine .empty (eq_nil_iff_forall_not_mem.mpr fun r hr => ?_)
      have := (mem_filter.mp (mem_rowsAt.mp hr)).2
      simp [hb] at this
    have hlog := H.log b
    refine hlog.sublist ((filter_sublist.filter _).map _) (le_of_eq ?_)
    rw [Db.nextSeq, Db.nextSeq, Db.account?, Db.account?, find?_filter]
    congr 3
    funext x
    by_cases hx : x.id = b
    · simp [hx, hb]
    · simp [hx]

/-! ## One job -/

theorem login (H : s.Wf) :
    Wf { s with db := (loginSql hashes s.db username authKey deviceName token now).2 } := by
  obtain ⟨haccounts, hitems, htokens⟩ :=
    loginSql_frame hashes s.db username authKey deviceName token now
  refine H.retoken haccounts hitems fun t ht => ?_
  rcases htokens t ht with ht | ⟨-, x, hx, hid⟩
  · exact H.tokens t ht
  · exact ⟨x, mem_of_find?_eq_some hx, hid.symm⟩

theorem auth (H : s.Wf) : Wf { s with db := (authSql hashes s.db token now).2 } := by
  obtain ⟨haccounts, hitems, htokens⟩ := authSql_frame hashes s.db token now
  refine H.retoken haccounts hitems fun t ht => ?_
  obtain ⟨t', ht', -, hid⟩ := htokens t ht
  exact hid ▸ H.tokens t' ht'

theorem logout (H : s.Wf) : Wf { s with db := (logoutSql hashes s.db token).2 } := by
  obtain ⟨haccounts, hitems, htokens⟩ := logoutSql_frame hashes s.db token
  exact H.retoken haccounts hitems fun t ht => H.tokens t (htokens t ht)

end AccountStore.Wf

/-- Whether `password_sql` changes the password, that is whether none of its checks fails. -/
def changesPassword (hashes : AccountHashes) (db : Db δ) (a : Nat) (input : PasswordIn) : Bool :=
  (db.account? a).any (fun x => hashes.hashAuthKey input.currentAuthKey = some x.authKeyHash) &&
    (parseKdf hashes input.kdf).isSome && (hashes.hashAuthKey input.authKey).isSome &&
    input.vault.utf8ByteSize ≤ vaultMaxBytes

/-- A change that is not refused revokes every token of the account and issues one. -/
theorem passwordSql_eq (hashes : AccountHashes) (db : Db δ) (a : Nat) (input : PasswordIn)
    (deviceName token : String) (now : Int) :
    (changesPassword hashes db a input = false ∧
      ∃ e, passwordSql hashes db a input deviceName token now = (.error e, db)) ∨
    changesPassword hashes db a input ∧ ∃ x authKeyHash kdf vault, db.account? a = some x ∧
      passwordSql hashes db a input deviceName token now =
        issueToken hashes ((db.updateAccount a fun x => { x with authKeyHash, kdf, vault }).deleteTokens
          fun t => t.accountId = a) a deviceName token now := by
  have hvault : ∀ vault, vaultJson input.vault = .ok vault ↔
      input.vault.utf8ByteSize ≤ vaultMaxBytes ∧ input.vault = vault := by
    intro vault
    rw [vaultJson]
    split
    next h => simp [Nat.not_le.mpr h]
    next h => simp [Nat.not_lt.mp h]
  rw [passwordSql, changesPassword]
  split
  next hx => exact .inl ⟨by simp [hx], _, rfl⟩
  next x hx =>
  split
  next hkey => exact .inl ⟨by simp [hx, hkey], _, rfl⟩
  next hkey =>
  split
  next kdf authKeyHash vault hkdf hauth hvault' =>
    refine .inr ⟨?_, x, authKeyHash, kdf, vault, hx, rfl⟩
    simp [hx, not_not.mp hkey, hkdf, hauth, ((hvault vault).mp hvault').1]
  next hsome =>
  refine .inl ⟨?_, _, rfl⟩
  rw [← Bool.not_eq_true]
  simp only [Bool.and_eq_true, decide_eq_true_eq, isSome_iff_exists]
  rintro ⟨⟨⟨-, kdf, hkdf⟩, authKeyHash, hauth⟩, hsize⟩
  exact hsome kdf authKeyHash _ hkdf hauth ((hvault _).mpr ⟨hsize, rfl⟩)

/-- A registration that is not refused inserts the account and issues its first token. -/
theorem registerSql_eq (hashes : AccountHashes) (keys : RegisterKeys) (s : AccountStore δ)
    (input : RegisterIn) (token : String) (now : Int) :
    (∃ e, registerSql hashes keys s input token now = (.error e, s)) ∨
    ∃ x : AccountRow, s.db.accountNamed? input.username = none ∧ x.username = input.username ∧
      x.nextSeq = 0 ∧ x.usedBytes = 0 ∧
      ∃ result, result = issueToken hashes (s.insertAccount x).db (s.lastId + 1) input.deviceName
          token now ∧
        (registerSql hashes keys s input token now).2 = { s.insertAccount x with db := result.2 } ∧
        ((∃ e, result.1 = .error e ∧ (registerSql hashes keys s input token now).1 = .error e) ∨
          ∃ out, result.1 = .ok out ∧
            (registerSql hashes keys s input token now).1 = .ok ⟨out, input.username, x.peerId⟩) := by
  rw [registerSql]
  split
  next kdf authKeyHash vault peerId _ _ _ _ =>
    split
    · exact .inl ⟨_, rfl⟩
    split
    · exact .inl ⟨_, rfl⟩
    next hname =>
    split
    · exact .inl ⟨_, rfl⟩
    refine .inr ⟨⟨0, input.username, peerId, authKeyHash, kdf, vault, 0, 0⟩,
      not_isSome_iff_eq_none.mp hname, rfl, rfl, rfl, _, rfl, ?_⟩
    dsimp only [AccountStore.insertAccount]
    generalize issueToken hashes _ (s.lastId + 1) _ _ _ = result
    obtain ⟨_ | _, db⟩ := result
    · exact ⟨rfl, .inl ⟨_, rfl, rfl⟩⟩
    · exact ⟨rfl, .inr ⟨_, rfl, rfl⟩⟩
  · exact .inl ⟨_, rfl⟩

theorem pushItems_accounts [Blob δ] {a : Nat} {quota now : Int} {st st' : PushState δ}
    {pushed : List (PushItem δ)} (h : pushItems a quota now st pushed = .ok st') {i : ItemRow δ}
    (hi : i ∈ st'.items) : i.accountId = a ∨ i ∈ st.items := by
  induction pushed generalizing st with
  | nil => cases h; exact .inr hi
  | cons item pushed ih =>
    obtain ⟨st₁, hst₁, h⟩ := pushItems_cons_ok h
    rcases ih h with ha | hi
    · exact .inl ha
    rcases (mem_rowsAt_upsertItem (pushItem_ok hst₁).1).mp (mem_rowsAt.mpr hi) with
      ⟨ha, -⟩ | ⟨hi, -⟩
    · exact .inl ha
    · exact .inr (mem_rowsAt.mp hi)

theorem deleteKeys_items [Blob δ] (a : Nat) (keys : List String) (st : DeleteState δ) :
    (keys.foldl (deleteKey a) st).items.Sublist st.items := by
  induction keys generalizing st with
  | nil => exact .refl _
  | cons key keys ih =>
    refine (ih _).trans ?_
    rw [deleteKey]
    split
    · exact .refl _
    split
    · exact .refl _
    · exact filter_sublist

namespace AccountStore.Wf

variable {s : AccountStore δ} {a : Nat} {db : Db δ} {hashes : AccountHashes} {keys : RegisterKeys}
  {quota : Nat} {now : Int} {token deviceName : String}

theorem password {input : PasswordIn} (H : s.Wf) :
    Wf { s with db := (passwordSql hashes s.db a input deviceName token now).2 } := by
  rcases passwordSql_eq hashes s.db a input deviceName token now with
    ⟨-, e, h⟩ | ⟨-, x, authKeyHash, kdf, vault, hx, h⟩
  · rw [h]
    exact H
  rw [h]
  have H' := (H.updateAccount (a := a) (f := fun x => { x with authKeyHash, kdf, vault })
    fun _ => ⟨rfl, rfl⟩).deleteTokens fun t => t.accountId = a
  obtain ⟨hmem, hid⟩ := mem_of_account hx
  exact H'.issueToken (mem_map_of_mem hmem) (by rw [if_pos hid]; exact hid)

theorem register {input : RegisterIn} (H : s.Wf) : (registerSql hashes keys s input token now).2.Wf := by
  rcases registerSql_eq hashes keys s input token now with ⟨e, h⟩ | ⟨x, -, -, -, -, _, rfl, h, -⟩
  · rw [h]
    exact H
  · rw [h]
    exact (H.insertAccount x).issueToken (x := { x with id := s.lastId + 1 })
      (mem_append_right _ mem_cons_self) rfl

variable [Blob δ]

theorem push {items : List (PushItem δ)} {out : PushOut} (H : s.Wf)
    (h : pushSql s.db a items quota now = .ok (out, db)) : Wf { s with db } := by
  have hlog := fun b => (pushSql_log h (H.log b)).1
  obtain ⟨acc, st, hacc, hst, rfl, rfl⟩ := pushSql_ok h
  obtain ⟨hmem, hid⟩ := mem_of_account hacc
  have hids : ∀ x : AccountRow, (if x.id = a then { x with nextSeq := st.nextSeq, usedBytes := st.current }
      else x).id = x.id := by
    intro x
    split <;> rfl
  have hfound : ∀ {b}, (∃ x ∈ s.db.accounts, x.id = b) →
      ∃ x ∈ ({ s.db with syncItems := st.items }.updateAccount a fun x =>
        { x with nextSeq := st.nextSeq, usedBytes := st.current }).accounts, x.id = b := by
    rintro b ⟨x, hx, hxid⟩
    exact ⟨_, mem_map_of_mem hx, (hids x).trans hxid⟩
  constructor
  · intro y hy
    obtain ⟨x, hx, rfl⟩ := mem_map.mp hy
    exact (hids x).le.trans (H.ids x hx)
  · have hnodup := H.nodup
    simpa only [Db.updateAccount, List.map_map, Function.comp_def, hids] using hnodup
  · exact fun t ht => hfound (H.tokens t ht)
  · intro i hi
    rcases pushItems_accounts hst hi with ha | hi
    · exact hfound ⟨acc, hmem, hid.trans ha.symm⟩
    · exact hfound (H.items i hi)
  · exact hlog

theorem deleteKeys {names : List String} {n : Nat} (H : s.Wf)
    (h : deleteKeysSql s.db a names = .ok (n, db)) : Wf { s with db } := by
  simp only [deleteKeysSql] at h
  split at h
  · cases h
  cases h
  have H' := H.shrink (deleteKeys_items a names ⟨s.db.syncItems, 0, 0⟩)
  split
  · exact H'.updateAccount fun _ => ⟨rfl, rfl⟩
  · exact H'

theorem handle (H : s.Wf) (job : AccountJob δ) : (s.handle hashes keys quota job).2.Wf := by
  cases job with
  | register => exact H.register
  | login => exact H.login
  | auth => exact H.auth
  | logout => exact H.logout
  | password => exact H.password
  | deleteAccount a authKey =>
    rw [AccountStore.handle]
    split
    · exact H
    next h => exact H.deleteAccount h
  | push a items now =>
    rw [AccountStore.handle]
    split
    · exact H
    next h => exact H.push h
  | deleteKeys a names =>
    rw [AccountStore.handle]
    split
    · exact H
    next h => exact H.deleteKeys h

end AccountStore.Wf

end Bluetalk.Relay

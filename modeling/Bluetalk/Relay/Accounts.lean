import Bluetalk.Relay.SyncLog

/-!
# Accounts and tokens of the relay

`prelogin_sql`, `login_sql`, `auth_sql`, `logout_sql` and `password_sql` of `relay/src/accounts.rs`.
They run outside of a transaction, so each returns the database also where it fails. Hashes, the
length of a salt and the parameters shown for an unknown name are a parameter (`AccountHashes`), a
new token is an argument. The vault is the text of an object.
-/

open List Option

namespace Bluetalk.Relay

def vaultMaxBytes : Nat := 64 * 1024
def tokenTtlMs : Int := 90 * 24 * 60 * 60 * 1000
def maxTokens : Nat := 20
def kdfIterations : Nat := 600000

structure AccountHashes where
  /-- `hash_auth_key` -/
  hashAuthKey : String → Option String
  /-- the hash of the bytes that `decode_token` finds -/
  hashToken : String → Option String
  /-- `decode_b64(salt)`, its length -/
  saltLength : String → Option Nat
  /-- `fake_kdf` -/
  fakeKdf : String → Kdf

structure Session where
  accountId : Nat
  username : String
  peerId : String

structure LoginOut where
  token : String
  username : String
  peerId : String
  vault : String
  kdf : Kdf

structure PasswordIn where
  currentAuthKey : String
  kdf : Kdf
  authKey : String
  vault : String

variable {δ : Type}

/-- `SELECT … FROM accounts WHERE username = ?1` -/
def Db.accountNamed? (db : Db δ) (username : String) : Option AccountRow :=
  db.accounts.find? fun x => x.username = username

def preloginSql (hashes : AccountHashes) (db : Db δ) (username : String) : Kdf :=
  match db.accountNamed? username with
  | some x => x.kdf
  | none => hashes.fakeKdf username

def parseKdf (hashes : AccountHashes) (kdf : Kdf) : Option Kdf :=
  if kdf.alg = "pbkdf2-sha256" ∧ kdf.iterations = kdfIterations ∧
      hashes.saltLength kdf.salt = some 16 then some kdf
  else none

def vaultJson (vault : String) : Except AccountError String :=
  if vaultMaxBytes < vault.utf8ByteSize then .error .invalid else .ok vault

def Db.deleteTokens (db : Db δ) (p : TokenRow → Bool) : Db δ :=
  { db with accountTokens := db.accountTokens.filter fun t => !p t }

def pruneExpired (db : Db δ) (a : Nat) (now : Int) : Db δ :=
  db.deleteTokens fun t => t.accountId = a ∧ t.lastUsed < now - tokenTtlMs

/-- `ORDER BY last_used ASC, created_at ASC` -/
def usedBefore (x y : TokenRow) : Prop :=
  x.lastUsed < y.lastUsed ∨ x.lastUsed = y.lastUsed ∧ x.createdAt ≤ y.createdAt

instance : DecidableRel usedBefore := fun _ _ => inferInstanceAs (Decidable (_ ∨ _))

/-- The tokens of the account beyond the first twenty in that order are deleted. -/
def capTokens (db : Db δ) (a : Nat) : Db δ :=
  let surplus := ((db.accountTokens.filter fun t => t.accountId = a).insertionSort usedBefore).drop
    maxTokens
  db.deleteTokens fun t => t.hash ∈ surplus.map (·.hash)

def issueToken (hashes : AccountHashes) (db : Db δ) (a : Nat) (deviceName token : String)
    (now : Int) : Except AccountError String × Db δ :=
  let db := pruneExpired db a now
  match hashes.hashToken token with
  | none => (.error .invalid, db)
  | some hash =>
    if db.accountTokens.any fun t => t.hash = hash then (.error .invalid, db)
    else
      let row : TokenRow := ⟨hash, a, now, now, deviceName⟩
      (.ok token, capTokens { db with accountTokens := db.accountTokens ++ [row] } a)

def loginSql (hashes : AccountHashes) (db : Db δ) (username authKey deviceName token : String)
    (now : Int) : Except AccountError LoginOut × Db δ :=
  match db.accountNamed? username with
  | none => (.error .invalidCredentials, db)
  | some x =>
    if hashes.hashAuthKey authKey ≠ some x.authKeyHash then (.error .invalidCredentials, db)
    else
      match issueToken hashes db x.id deviceName token now with
      | (.error e, db) => (.error e, db)
      | (.ok token, db) => (.ok ⟨token, username, x.peerId, x.vault, x.kdf⟩, db)

def authSql (hashes : AccountHashes) (db : Db δ) (token : String) (now : Int) :
    Except AccountError Session × Db δ :=
  match hashes.hashToken token with
  | none => (.error .unauthorized, db)
  | some hash =>
    match db.accountTokens.find? fun t => t.hash = hash with
    | none => (.error .unauthorized, db)
    | some t =>
      match db.account? t.accountId with
      | none => (.error .unauthorized, db)
      | some x =>
        if t.lastUsed < now - tokenTtlMs then
          (.error .unauthorized, db.deleteTokens fun t => t.hash = hash)
        else
          (.ok ⟨t.accountId, x.username, x.peerId⟩,
            { db with accountTokens := db.accountTokens.map fun t =>
              if t.hash = hash then { t with lastUsed := now } else t })

def logoutSql (hashes : AccountHashes) (db : Db δ) (token : String) :
    Except AccountError Unit × Db δ :=
  match hashes.hashToken token with
  | none => (.error .unauthorized, db)
  | some hash =>
    if db.accountTokens.any fun t => t.hash = hash then
      (.ok (), db.deleteTokens fun t => t.hash = hash)
    else (.error .unauthorized, db)

/-- Every token of the account is revoked, and one is issued for the device that asked. The items
of the account stay as they are. -/
def passwordSql (hashes : AccountHashes) (db : Db δ) (a : Nat) (input : PasswordIn)
    (deviceName token : String) (now : Int) : Except AccountError String × Db δ :=
  match db.account? a with
  | none => (.error .unauthorized, db)
  | some x =>
    if hashes.hashAuthKey input.currentAuthKey ≠ some x.authKeyHash then
      (.error .invalidCredentials, db)
    else
      match parseKdf hashes input.kdf, hashes.hashAuthKey input.authKey, vaultJson input.vault with
      | some kdf, some authKeyHash, .ok vault =>
        let db := db.updateAccount a fun x => { x with authKeyHash, kdf, vault }
        issueToken hashes (db.deleteTokens fun t => t.accountId = a) a deviceName token now
      | _, _, _ => (.error .invalid, db)

theorem Db.accountNamed?_updateAccount {db : Db δ} {a : Nat} {username : String}
    {f : AccountRow → AccountRow} (hf : ∀ x, (f x).username = x.username) :
    (db.updateAccount a f).accountNamed? username =
      (db.accountNamed? username).map fun x => if x.id = a then f x else x := by
  simp only [Db.accountNamed?, Db.updateAccount]
  induction db.accounts with
  | nil => rfl
  | cons x xs ih =>
    have hname : (if x.id = a then f x else x).username = x.username := by split <;> simp [hf]
    simp only [map_cons, find?_cons, hname]
    by_cases h : x.username = username
    · simp only [h, decide_true, map_some]
    · simpa only [h, decide_false] using ih

theorem Db.found_updateAccount {db : Db δ} {a : Nat} {username : String} {x : AccountRow}
    {f : AccountRow → AccountRow} (hf : ∀ x, (f x).id = x.id ∧ (f x).username = x.username)
    (hx : db.account? a = some x) (hnamed : db.accountNamed? username = some x) :
    (db.updateAccount a f).account? a = some (f x) ∧
      (db.updateAccount a f).accountNamed? username = some (f x) := by
  rw [Db.account?_updateAccount fun x => (hf x).1, Db.accountNamed?_updateAccount fun x => (hf x).2,
    hx, hnamed]
  simp [Db.account?_id hx]

/-! ## What each of them leaves -/

section
variable {hashes : AccountHashes} {db : Db δ} {a : Nat} {username authKey deviceName token : String}
  {now : Int} {t : TokenRow}

theorem mem_deleteTokens {p : TokenRow → Bool} :
    t ∈ (db.deleteTokens p).accountTokens ↔ t ∈ db.accountTokens ∧ p t = false := by
  simp [Db.deleteTokens]

variable (hashes db a deviceName token now) in
theorem issueToken_frame :
    (issueToken hashes db a deviceName token now).2.accounts = db.accounts ∧
    (issueToken hashes db a deviceName token now).2.syncItems = db.syncItems ∧
    ∀ t ∈ (issueToken hashes db a deviceName token now).2.accountTokens,
      t ∈ db.accountTokens ∨ some t.hash = hashes.hashToken token ∧ t.accountId = a := by
  have hprune : ∀ t ∈ (pruneExpired db a now).accountTokens, t ∈ db.accountTokens :=
    fun t ht => (mem_deleteTokens.mp ht).1
  simp only [issueToken]
  split
  · exact ⟨rfl, rfl, fun t ht => .inl (hprune t ht)⟩
  next hash hhash =>
  split
  · exact ⟨rfl, rfl, fun t ht => .inl (hprune t ht)⟩
  refine ⟨rfl, rfl, fun t ht => ?_⟩
  rcases mem_append.mp (mem_deleteTokens.mp ht).1 with ht | ht
  · exact .inl (hprune t ht)
  · rw [mem_singleton] at ht
    exact .inr ⟨by rw [ht, hhash], by rw [ht]⟩

theorem issueToken_ok {out : String}
    (h : (issueToken hashes db a deviceName token now).1 = .ok out) : out = token := by
  simp only [issueToken] at h
  split at h
  · cases h
  split at h
  · cases h
  · cases h; rfl

theorem issueToken_fresh {hash : String} (hhash : hashes.hashToken token = some hash)
    (h : ∀ t ∈ db.accountTokens, t.hash ≠ hash) :
    (issueToken hashes db a deviceName token now).1 = .ok token := by
  have hprune : ¬(pruneExpired db a now).accountTokens.any fun t => t.hash = hash := by
    rw [List.any_eq_true]
    rintro ⟨t, ht, e⟩
    exact h t (mem_deleteTokens.mp ht).1 (by simpa using e)
  simp only [issueToken, hhash, if_neg hprune]

variable (hashes db token now) in
theorem authSql_frame :
    (authSql hashes db token now).2.accounts = db.accounts ∧
    (authSql hashes db token now).2.syncItems = db.syncItems ∧
    ∀ t ∈ (authSql hashes db token now).2.accountTokens,
      ∃ t' ∈ db.accountTokens, t'.hash = t.hash ∧ t'.accountId = t.accountId := by
  have hsame : ∀ t ∈ db.accountTokens,
      ∃ t' ∈ db.accountTokens, t'.hash = t.hash ∧ t'.accountId = t.accountId :=
    fun t ht => ⟨t, ht, rfl, rfl⟩
  simp only [authSql]
  split
  · exact ⟨rfl, rfl, hsame⟩
  split
  · exact ⟨rfl, rfl, hsame⟩
  split
  · exact ⟨rfl, rfl, hsame⟩
  split
  · exact ⟨rfl, rfl, fun t ht => hsame t (mem_deleteTokens.mp ht).1⟩
  refine ⟨rfl, rfl, fun t ht => ?_⟩
  obtain ⟨t', ht', rfl⟩ := mem_map.mp ht
  refine ⟨t', ht', ?_⟩
  split <;> exact ⟨rfl, rfl⟩

theorem authSql_ok {session : Session} (h : (authSql hashes db token now).1 = .ok session) :
    ∃ t ∈ db.accountTokens, hashes.hashToken token = some t.hash ∧
      t.accountId = session.accountId := by
  simp only [authSql] at h
  split at h
  · cases h
  next hash hhash =>
  split at h
  · cases h
  next t ht =>
  split at h
  · cases h
  split at h
  · cases h
  · cases h
    refine ⟨t, mem_of_find?_eq_some ht, ?_, rfl⟩
    rw [hhash, show t.hash = hash by simpa using find?_some ht]

variable (hashes db token) in
theorem logoutSql_frame :
    (logoutSql hashes db token).2.accounts = db.accounts ∧
    (logoutSql hashes db token).2.syncItems = db.syncItems ∧
    ∀ t ∈ (logoutSql hashes db token).2.accountTokens, t ∈ db.accountTokens := by
  simp only [logoutSql]
  split
  · exact ⟨rfl, rfl, fun _ h => h⟩
  split
  · exact ⟨rfl, rfl, fun _ ht => (mem_deleteTokens.mp ht).1⟩
  · exact ⟨rfl, rfl, fun _ h => h⟩

variable (hashes db username authKey deviceName token now) in
theorem loginSql_frame :
    (loginSql hashes db username authKey deviceName token now).2.accounts = db.accounts ∧
    (loginSql hashes db username authKey deviceName token now).2.syncItems = db.syncItems ∧
    ∀ t ∈ (loginSql hashes db username authKey deviceName token now).2.accountTokens,
      t ∈ db.accountTokens ∨ some t.hash = hashes.hashToken token ∧
        ∃ x ∈ db.accountNamed? username, t.accountId = x.id := by
  simp only [loginSql]
  split
  · exact ⟨rfl, rfl, fun t ht => .inl ht⟩
  next x hx =>
  split
  · exact ⟨rfl, rfl, fun t ht => .inl ht⟩
  have hissue := issueToken_frame hashes db x.id deviceName token now
  split
  all_goals
    next h =>
    rw [h] at hissue
    exact ⟨hissue.1, hissue.2.1, fun t ht =>
      (hissue.2.2 t ht).imp_right fun ht => ⟨ht.1, x, hx, ht.2⟩⟩

theorem loginSql_ok {out : LoginOut}
    (h : (loginSql hashes db username authKey deviceName token now).1 = .ok out) :
    out.token = token ∧ out.username = username ∧ ∃ x ∈ db.accountNamed? username,
      hashes.hashAuthKey authKey = some x.authKeyHash := by
  simp only [loginSql] at h
  split at h
  · cases h
  next x hx =>
  split at h
  · cases h
  next hkey =>
  split at h
  · cases h
  next htoken =>
  cases h
  exact ⟨issueToken_ok (congrArg Prod.fst htoken), rfl, x, hx, not_not.mp hkey⟩

variable (a deviceName now) in
/-- With a token that no row has yet: a change that revokes every other token, or none. -/
theorem passwordSql_cases (input : PasswordIn) {hash : String}
    (hhash : hashes.hashToken token = some hash) (h : ∀ t ∈ db.accountTokens, t.hash ≠ hash) :
    (passwordSql hashes db a input deviceName token now).2 = db ∧
      (∀ out, (passwordSql hashes db a input deviceName token now).1 ≠ .ok out) ∨
    ∃ x ∈ db.account? a, hashes.hashAuthKey input.currentAuthKey = some x.authKeyHash ∧
      ∃ authKeyHash vault db', hashes.hashAuthKey input.authKey = some authKeyHash ∧
        passwordSql hashes db a input deviceName token now = (.ok token, db') ∧
        db'.accounts = (db.updateAccount a fun x =>
          { x with authKeyHash, kdf := input.kdf, vault }).accounts ∧
        db'.syncItems = db.syncItems ∧
        ∀ t ∈ db'.accountTokens, t ∈ db.accountTokens ∧ t.accountId ≠ a ∨
          t.hash = hash ∧ t.accountId = a := by
  simp only [passwordSql]
  split
  · exact .inl ⟨rfl, nofun⟩
  next x hx =>
  split
  · exact .inl ⟨rfl, nofun⟩
  next hkey =>
  split
  · next kdf authKeyHash vault hkdf hauth _ =>
    obtain rfl : input.kdf = kdf := by
      simp only [parseKdf] at hkdf
      split at hkdf
      · exact some.inj hkdf
      · cases hkdf
    set db₁ : Db δ := (db.updateAccount a fun x =>
      { x with authKeyHash, kdf := input.kdf, vault }).deleteTokens fun t => t.accountId = a with hdb₁
    have htokens : ∀ t ∈ db₁.accountTokens, t ∈ db.accountTokens ∧ t.accountId ≠ a := by
      intro t ht
      rw [hdb₁, mem_deleteTokens] at ht
      exact ⟨ht.1, by simpa using ht.2⟩
    have hok : (issueToken hashes db₁ a deviceName token now).1 = .ok token :=
      issueToken_fresh hhash fun t ht => h t (htokens t ht).1
    obtain ⟨haccounts, hitems, htokens'⟩ := issueToken_frame hashes db₁ a deviceName token now
    refine .inr ⟨x, hx, not_not.mp hkey, authKeyHash, vault,
      (issueToken hashes db₁ a deviceName token now).2, hauth, Prod.ext hok rfl, haccounts, hitems,
      fun t ht => ?_⟩
    refine (htokens' t ht).imp (htokens t) fun ⟨hself, hid⟩ => ⟨?_, hid⟩
    exact some.inj (hself.trans hhash)
  · exact .inl ⟨rfl, nofun⟩

end
end Bluetalk.Relay

import Bluetalk.CloudAccount.Session

/-!
# Password changes and the items of the log

A password change gives the account new keys. It seals the vault again, but not the items of the
log: they stay under the item keys and the encryption of the old password. As long as every change
comes while the log is empty and no admitted push is on its way (`CloudAllowed`), the live items are
those of the current keys (`items_follow_password`).
-/

open List Option

namespace Bluetalk.CloudAccount
open Relay Storage

variable {ι κ ν δ : Type} [DecidableEq ι]

/-- An auth key tells which keys come with it: no two passwords have the same hash of their auth key
and different keys. -/
def KeysIdentified (hashes : AccountHashes) (accountCipher : AccountCipher κ ν) : Prop :=
  ∀ p p' kdf hash, hashes.hashAuthKey (accountCipher.derive p kdf).authKey = some hash →
    hashes.hashAuthKey (accountCipher.derive p' kdf).authKey = some hash →
      (accountCipher.derive p kdf).keys = (accountCipher.derive p' kdf).keys

/-- The item stands under the item key of a logical key, and was encrypted under the keys. -/
def SealedUnder (cipher : SyncCipher κ ν δ) (keys : SessionKeys κ) (r : SyncRow δ) : Prop :=
  ∃ iv logicalKey op, r.key = (sealSyncItem cipher keys iv logicalKey op).key ∧
    r.data = (sealSyncItem cipher keys iv logicalKey op).data

namespace Cloud

/-- A device, a request or an answer on its way has the token, together with the keys. -/
def Holds (s : Cloud ι κ δ) (token : String) (keys : SessionKeys κ) : Prop :=
  (∃ i, ∃ live ∈ (s.dev i).account, live.token = token ∧ live.keys = keys) ∨
  (∃ r ∈ s.requests, r.live.token = token ∧ r.live.keys = keys) ∨
  ∃ p ∈ s.replies, p.2.token = token ∧ p.2.keys = keys

/-- The token is one that nobody has and no row is about: 32 random bytes are not drawn again. -/
def Fresh (hashes : AccountHashes) (s : Cloud ι κ δ) (token : String) : Prop :=
  ∃ hash, hashes.hashToken token = some hash ∧ (∀ t ∈ s.db.accountTokens, t.hash ≠ hash) ∧
    ∀ token' keys, s.Holds token' keys → hashes.hashToken token' ≠ some hash

/-- The relay takes the password for that of the account. -/
def Verifies (hashes : AccountHashes) (accountCipher : AccountCipher κ ν) (a : Nat)
    (s : Cloud ι κ δ) (password : String) : Prop :=
  ∃ x ∈ s.db.account? a,
    hashes.hashAuthKey (accountCipher.derive password x.kdf).authKey = some x.authKeyHash

/-- The row of the account, whose password has these keys. -/
structure IsCurrent (hashes : AccountHashes) (accountCipher : AccountCipher κ ν) (a : Nat)
    (username : String) (s : Cloud ι κ δ) (x : AccountRow) (keys : SessionKeys κ) : Prop where
  account : s.db.account? a = some x
  named : s.db.accountNamed? username = some x
  auth : hashes.hashAuthKey (accountCipher.derive s.password x.kdf).authKey = some x.authKeyHash
  keys : (accountCipher.derive s.password x.kdf).keys = keys

/-- An account without items, before any device logs in. -/
structure Starts (hashes : AccountHashes) (accountCipher : AccountCipher κ ν) (a : Nat)
    (username : String) (s : Cloud ι κ δ) : Prop where
  account : ∃ x keys, IsCurrent hashes accountCipher a username s x keys
  rows : s.db.rowsOf a = []
  dev : ∀ i, (s.dev i).account = none
  requests : s.requests = []
  replies : s.replies = []

end Cloud

section
variable {hashes : AccountHashes} {accountCipher : AccountCipher κ ν} {cipher : SyncCipher κ ν δ}
  {a : Nat} {username : String} {s s' : Cloud ι κ δ} {keys : SessionKeys κ} {i : ι}

variable (hashes accountCipher a) in
/-- Tokens are new, and the password is changed while the log is empty and no admitted push is on
its way. -/
def CloudAllowed (s : Cloud ι κ δ) : CloudAction ι ν → Prop
  | .login _ _ _ token _ => s.Fresh hashes token
  | .changePassword _ old _ _ _ _ token _ => s.Fresh hashes token ∧
      (s.Verifies hashes accountCipher a old →
        s.db.rowsOf a = [] ∧ ∀ r ∈ s.requests, r.session = none)
  | _ => True

variable (hashes accountCipher cipher a username) in
/-- Whoever has a token that the relay accepts has the current keys, and so has every request that
was admitted. -/
structure CloudInv (s : Cloud ι κ δ) (keys : SessionKeys κ) : Prop where
  account : ∃ x, s.IsCurrent hashes accountCipher a username x keys
  tokens : ∀ token k, s.Holds token k → ∀ t ∈ s.db.accountTokens,
    hashes.hashToken token = some t.hash → t.accountId = a ∧ k = keys
  usernames : ∀ i, ∀ live ∈ (s.dev i).account, live.username = username ∨ live.username = ""
  requests : ∀ r ∈ s.requests, ∀ x ∈ r.sent, ∃ iv logicalKey op,
    x.item = sealSyncItem cipher r.live.keys iv logicalKey op
  admitted : ∀ r ∈ s.requests, ∀ b, r.session = some b → b = a ∧ r.live.keys = keys
  rows : ∀ r ∈ s.db.rowsOf a, SealedUnder cipher keys r

/-- The tokens that were there, all but a new one that was issued for the account. -/
def TokensOf (hashes : AccountHashes) (a : Nat) (db db' : Db δ) (issued : Option String) : Prop :=
  ∀ t ∈ db'.accountTokens,
    (∃ t' ∈ db.accountTokens, t'.hash = t.hash ∧ t'.accountId = t.accountId) ∨
    ∃ token ∈ issued, some t.hash = hashes.hashToken token ∧ t.accountId = a

omit [DecidableEq ι] in
theorem Cloud.IsCurrent.congr {x : AccountRow}
    (h : s.IsCurrent hashes accountCipher a username x keys)
    (haccounts : s'.db.accounts = s.db.accounts) (hpassword : s'.password = s.password) :
    s'.IsCurrent hashes accountCipher a username x keys where
  account := by rw [Db.account?, haccounts]; exact h.account
  named := by rw [Db.accountNamed?, haccounts]; exact h.named
  auth := by rw [hpassword]; exact h.auth
  keys := by rw [hpassword]; exact h.keys

omit [DecidableEq ι] in
/-- A step that leaves the keys of the account: a token is old, or issued with the current keys. -/
theorem CloudInv.frame {issued : Option String}
    (I : CloudInv hashes accountCipher cipher a username s keys)
    (haccount : ∃ x, s'.IsCurrent hashes accountCipher a username x keys)
    (hrows : ∀ r ∈ s'.db.rowsOf a, SealedUnder cipher keys r)
    (htokens : TokensOf hashes a s.db s'.db issued)
    (hissued : ∀ token ∈ issued, s.Fresh hashes token)
    (hholds : ∀ token k, s'.Holds token k → s.Holds token k ∨ token ∈ issued ∧ k = keys)
    (husernames : ∀ i, ∀ live ∈ (s'.dev i).account,
      live.username = username ∨ live.username = "")
    (hrequests : ∀ r ∈ s'.requests, ∀ x ∈ r.sent, ∃ iv logicalKey op,
      x.item = sealSyncItem cipher r.live.keys iv logicalKey op)
    (hadmitted : ∀ r ∈ s'.requests, ∀ b, r.session = some b → b = a ∧ r.live.keys = keys) :
    CloudInv hashes accountCipher cipher a username s' keys := by
  refine ⟨haccount, fun token k hk t ht htoken => ?_, husernames, hrequests, hadmitted, hrows⟩
  rcases htokens t ht with ⟨t', ht', hhash, hid⟩ | ⟨new, hnew, hhash, hid⟩ <;>
    rcases hholds token k hk with hold | ⟨hself, hkeys⟩
  · have := I.tokens token k hold t' ht' (hhash ▸ htoken)
    exact ⟨hid ▸ this.1, this.2⟩
  · -- no row is about a token that is issued
    obtain ⟨hash, hh, hrows, -⟩ := hissued token hself
    rw [hh] at htoken
    exact absurd (hhash.trans (some.inj htoken).symm) (hrows t' ht')
  · -- and nobody has it
    obtain ⟨hash, hh, -, hheld⟩ := hissued new hnew
    exact absurd (htoken.trans (hhash.trans hh)) (hheld token k hold)
  · exact ⟨hid, hkeys⟩

omit [DecidableEq ι] in
theorem CloudInv.quiet (I : CloudInv hashes accountCipher cipher a username s keys)
    (haccounts : s'.db.accounts = s.db.accounts) (hitems : s'.db.syncItems = s.db.syncItems)
    (hpassword : s'.password = s.password) (htokens : TokensOf hashes a s.db s'.db none)
    (hdev : ∀ j, ∀ live ∈ (s'.dev j).account, live ∈ (s.dev j).account)
    (hrequests : ∀ r ∈ s'.requests, r ∈ s.requests) (hreplies : ∀ p ∈ s'.replies, p ∈ s.replies) :
    CloudInv hashes accountCipher cipher a username s' keys := by
  obtain ⟨x, hx⟩ := I.account
  refine I.frame ⟨x, hx.congr haccounts hpassword⟩ (by rw [Db.rowsOf, hitems]; exact I.rows) htokens
    nofun ?_ (fun j live h => I.usernames j live (hdev j live h))
    (fun r hr => I.requests r (hrequests r hr)) fun r hr => I.admitted r (hrequests r hr)
  rintro token k (⟨j, live, hlive, h⟩ | ⟨r, hr, h⟩ | ⟨p, hp, h⟩)
  · exact .inl (.inl ⟨j, live, hdev j live hlive, h⟩)
  · exact .inl (.inr (.inl ⟨r, hrequests r hr, h⟩))
  · exact .inl (.inr (.inr ⟨p, hreplies p hp, h⟩))

theorem Cloud.setDev_dev {d : CloudDevice κ} {j : ι} :
    (s.setDev i d).dev j = if j = i then d else s.dev j := Function.update_apply ..

theorem Cloud.account_setDev {d : CloudDevice κ}
    (hd : ∀ live ∈ d.account, live ∈ (s.dev i).account) (j : ι) :
    ∀ live ∈ ((s.setDev i d).dev j).account, live ∈ (s.dev j).account := by
  rw [Cloud.setDev_dev]
  split
  · next h => exact h ▸ hd
  · exact fun _ h => h

omit [DecidableEq ι] in
theorem tokensOf_auth {db db' : Db δ} {token : String} {now : Int}
    {out : Except AccountError Session} (h : authSql hashes db token now = (out, db')) :
    db'.accounts = db.accounts ∧ db'.syncItems = db.syncItems ∧ TokensOf hashes a db db' none := by
  have hframe := authSql_frame hashes db token now
  rw [h] at hframe
  exact ⟨hframe.1, hframe.2.1, fun t ht => .inl (hframe.2.2 t ht)⟩

theorem tokensOf_self {db : Db δ} : TokensOf hashes a db db none :=
  fun t ht => .inl ⟨t, ht, rfl, rfl⟩

omit [DecidableEq ι] in
theorem CloudInv.session (I : CloudInv hashes accountCipher cipher a username s keys)
    {token : String} {k : SessionKeys κ} {now : Int} {session : Session} (hk : s.Holds token k)
    (h : (authSql hashes s.db token now).1 = .ok session) :
    session.accountId = a ∧ k = keys := by
  obtain ⟨t, ht, hhash, hid⟩ := authSql_ok h
  have := I.tokens token k hk t ht hhash
  exact ⟨hid ▸ this.1, this.2⟩

/-! ## Pushes -/

theorem fillBatch_sealed [Blob δ] {sealItem : String → Op → PushItem δ}
    {findMessage : String → String → Option Message} {now : Int} {d : Device} {todo : List Change}
    {sent : List (SentChange δ)} {x : SentChange δ}
    (hx : x ∈ (fillBatch sealItem findMessage now d todo sent).2) :
    x ∈ sent ∨ ∃ logicalKey op, x.item = sealItem logicalKey op := by
  induction todo generalizing d sent with
  | nil => exact .inl hx
  | cons c todo ih =>
    simp only [fillBatch] at hx
    split at hx
    · exact .inl hx
    split at hx
    · exact ih hx
    next op _ =>
    split at hx
    · exact ih hx
    next item hitem =>
    split at hx
    · rcases ih hx with hx | hx
      · rcases mem_append.mp hx with hx | hx
        · exact .inl hx
        · rw [mem_singleton] at hx
          refine .inr ⟨logicalKeyOf c, ?_⟩
          simp only [sealWithinLimit] at hitem
          split at hitem
          · exact ⟨op, by rw [hx, ← some.inj hitem]⟩
          split at hitem
          · cases hitem
          next op' _ =>
          split at hitem
          · exact ⟨op', by rw [hx, ← some.inj hitem]⟩
          · cases hitem
      · exact .inr hx
    split at hx
    · exact ih hx
    · exact .inl hx

/-! ## One step -/

section step
variable {password deviceName token : String} {now : Int}

omit [DecidableEq ι] in
theorem Cloud.IsCurrent.prelogin {x : AccountRow}
    (h : s.IsCurrent hashes accountCipher a username x keys) :
    preloginSql hashes s.db username = x.kdf := by
  rw [preloginSql, h.named]

theorem deriveKeys_eq_some {password : String} {kdf : Kdf} {derived : DerivedKeys κ}
    (h : deriveKeys accountCipher username password kdf = some derived) :
    isValidUsername username = true ∧ derived = accountCipher.derive password kdf := by
  simp only [deriveKeys] at h
  split at h
  · cases h
  · next hvalid => exact ⟨by simp_all, (some.inj h).symm⟩

variable (hashes accountCipher username s i password deviceName token now) in
theorem loginAccount_cases :
    ∃ db, db.accounts = s.db.accounts ∧ db.syncItems = s.db.syncItems ∧
      (∀ t ∈ db.accountTokens, t ∈ s.db.accountTokens ∨ some t.hash = hashes.hashToken token ∧
        ∃ x ∈ s.db.accountNamed? username, t.accountId = x.id) ∧
      (loginAccount hashes accountCipher s username i password deviceName token now = { s with db } ∨
        ∃ x ∈ s.db.accountNamed? username,
          hashes.hashAuthKey (accountCipher.derive password x.kdf).authKey = some x.authKeyHash ∧
          loginAccount hashes accountCipher s username i password deviceName token now =
            { s with db }.setDev i ⟨(s.dev i).dev.resetSync,
              some ⟨username, token, (accountCipher.derive password x.kdf).keys⟩⟩) := by
  simp only [loginAccount]
  split
  · exact ⟨s.db, rfl, rfl, fun t ht => .inl ht, .inl rfl⟩
  next derived hderived =>
  obtain ⟨-, hderived⟩ := deriveKeys_eq_some hderived
  obtain ⟨haccounts, hitems, htokens⟩ := loginSql_frame hashes s.db username derived.authKey deviceName
    token now
  split
  · next he =>
    rw [he] at haccounts hitems htokens
    exact ⟨_, haccounts, hitems, htokens, .inl rfl⟩
  next out db hout =>
  obtain ⟨houtToken, houtName, x, hx, hauth⟩ := loginSql_ok (congrArg Prod.fst hout)
  rw [hout] at haccounts hitems htokens
  refine ⟨db, haccounts, hitems, htokens, ?_⟩
  split
  · exact .inl rfl
  · rw [preloginSql, hx] at hderived
    subst hderived
    exact .inr ⟨x, hx, hauth, by rw [houtName, houtToken]⟩

theorem CloudInv.login (I : CloudInv hashes accountCipher cipher a username s keys)
    (hkeys : KeysIdentified hashes accountCipher) (hfresh : s.Fresh hashes token) :
    CloudInv hashes accountCipher cipher a username
      (loginAccount hashes accountCipher s username i password deviceName token now) keys := by
  obtain ⟨x, hx⟩ := I.account
  obtain ⟨db, haccounts, hitems, htokens, hcases⟩ := loginAccount_cases hashes accountCipher
    username s i password deviceName token now
  have htokens : TokensOf hashes a s.db db (some token) := by
    intro t ht
    refine (htokens t ht).imp (fun h => ⟨t, h, rfl, rfl⟩) fun ⟨hhash, x', hx', h⟩ => ?_
    obtain rfl : x' = x := mem_unique hx' hx.named
    exact ⟨token, rfl, hhash, h.trans (Db.account?_id hx.account)⟩
  have hissued : ∀ token' ∈ some token, s.Fresh hashes token' := by
    rintro _ ⟨⟩
    exact hfresh
  have hrows : ∀ r ∈ db.rowsOf a, SealedUnder cipher keys r := by
    rw [Db.rowsOf, hitems]
    exact I.rows
  rcases hcases with heq | ⟨x', hx', hauth, heq⟩ <;> rw [heq]
  · exact I.frame ⟨x, hx.congr haccounts rfl⟩ hrows htokens hissued (fun _ _ => .inl) I.usernames
      I.requests I.admitted
  obtain rfl : x' = x := mem_unique hx' hx.named
  have hcurrent : (accountCipher.derive password x'.kdf).keys = keys := by
    rw [← hx.keys]
    exact hkeys _ _ _ _ hauth hx.auth
  refine I.frame ⟨x', hx.congr haccounts rfl⟩ hrows htokens hissued ?_ ?_ I.requests I.admitted
  · rintro token' k (⟨j, live, hlive, ht, hk⟩ | h)
    · rw [Cloud.setDev_dev] at hlive
      split at hlive
      · cases hlive
        exact .inr ⟨ht ▸ rfl, hk ▸ hcurrent⟩
      · exact .inl (.inl ⟨j, live, hlive, ht, hk⟩)
    · exact .inl (.inr h)
  · intro j live hlive
    rw [Cloud.setDev_dev] at hlive
    split at hlive
    · cases hlive
      exact .inl rfl
    · exact I.usernames j live hlive

omit [DecidableEq ι] in
/-- A password change brings new keys; the old ones are gone if nothing was pushed or on its way. -/
theorem CloudInv.changePassword {old new salt plain : String} {iv : ν}
    (I : CloudInv hashes accountCipher cipher a username s keys)
    (hfresh : s.Fresh hashes token) (hempty : s.Verifies hashes accountCipher a old →
      s.db.rowsOf a = [] ∧ ∀ r ∈ s.requests, r.session = none) :
    ∃ keys', CloudInv hashes accountCipher cipher a username
      (changePassword hashes accountCipher s i old new salt plain iv token now) keys' := by
  obtain ⟨x, hx⟩ := I.account
  simp only [CloudAccount.changePassword]
  split
  · exact ⟨keys, I⟩
  next live hlive =>
  split
  case h_2 => exact ⟨keys, I⟩
  next current next hcurrent hnext =>
  split
  · exact ⟨keys, I⟩
  -- no name, no keys: the account has the name of the login
  obtain ⟨hvalid, hcurrent⟩ := deriveKeys_eq_some hcurrent
  obtain ⟨-, hnext⟩ := deriveKeys_eq_some hnext
  have hname : live.username = username := (I.usernames i live hlive).resolve_right (by
    rintro h
    rw [h] at hvalid
    revert hvalid
    decide)
  rw [hname, hx.prelogin] at hcurrent
  split
  · next hauth =>
    obtain ⟨haccounts, hitems, htokens⟩ := tokensOf_auth (a := a) hauth
    exact ⟨keys, I.quiet haccounts hitems rfl htokens (fun _ _ => id) (fun _ => id) fun _ => id⟩
  next session db hauth =>
  obtain ⟨haccount, -⟩ := I.session (.inl ⟨i, live, hlive, rfl, rfl⟩) (congrArg Prod.fst hauth)
  obtain ⟨haccounts, hitems, htokens⟩ := tokensOf_auth (a := a) hauth
  obtain ⟨hash, hhash, hrows, hheld⟩ := hfresh
  have hnew : ∀ t ∈ db.accountTokens, t.hash ≠ hash := by
    rintro t ht rfl
    obtain ⟨t', ht', hh, -⟩ | ⟨_, ⟨⟩, -⟩ := htokens t ht
    exact hrows t' ht' hh
  rw [haccount, hname]
  rcases passwordSql_cases a "" now ⟨current.authKey, newKdf salt,
      next.authKey, accountCipher.encryptVault next.keys.encKey iv username plain⟩ hhash hnew with
    ⟨hdb, hno⟩ | ⟨x', hx', hauthKey, authKeyHash, vault, db', hauthHash, hok, haccounts', hitems',
      htokens'⟩
  · split
    · next he =>
      rw [he] at hdb
      obtain rfl : _ = db := hdb
      exact ⟨keys, I.quiet haccounts hitems rfl htokens (fun _ _ => id) (fun _ => id) fun _ => id⟩
    · next hok => exact absurd (congrArg Prod.fst hok) (hno _)
  · have haccount? : db.account? a = some x := by rw [Db.account?, haccounts]; exact hx.account
    have hnamed : db.accountNamed? username = some x := by
      rw [Db.accountNamed?, haccounts]; exact hx.named
    obtain rfl : x' = x := mem_unique hx' haccount?
    obtain ⟨hlog, hadmitted⟩ := hempty ⟨x', hx.account, hcurrent ▸ hauthKey⟩
    obtain ⟨hfound, hfoundName⟩ := Db.found_updateAccount (f := fun x =>
      { x with authKeyHash, kdf := newKdf salt, vault }) (fun _ => ⟨rfl, rfl⟩) haccount? hnamed
    rw [hok]
    refine ⟨next.keys, ⟨{ x' with authKeyHash, kdf := newKdf salt, vault }, ?_, ?_, ?_, ?_⟩, ?_,
      I.usernames, I.requests, ?_, ?_⟩
    · rw [Db.account?, haccounts']; exact hfound
    · rw [Db.accountNamed?, haccounts']; exact hfoundName
    · rw [← hnext]; exact hauthHash
    · rw [← hnext]
    · intro token' k hk t ht htoken
      have hcases : s.Holds token' k ∨ token' = token ∧ k = next.keys := by
        rcases hk with hk | hk | ⟨p, hp, ht, hk⟩
        · exact .inl (.inl hk)
        · exact .inl (.inr (.inl hk))
        rcases mem_append.mp hp with hp | hp
        · exact .inl (.inr (.inr ⟨p, hp, ht, hk⟩))
        · rw [mem_singleton] at hp
          subst hp
          exact .inr ⟨ht.symm, hk.symm⟩
      rcases htokens' t ht with ⟨hkept, hother⟩ | ⟨hself, hid⟩ <;>
        rcases hcases with hold | ⟨rfl, hcurrent⟩
      · -- a row of another account is about no token that is held
        obtain ⟨t', ht', hh, hid⟩ | ⟨_, ⟨⟩, -⟩ := htokens t hkept
        exact absurd (hid ▸ (I.tokens token' k hold t' ht' (hh ▸ htoken)).1) hother
      · exact absurd (some.inj (htoken.symm.trans hhash)) (hnew t hkept)
      · exact absurd (hself ▸ htoken) (hheld token' k hold)
      · exact ⟨hid, hcurrent⟩
    · intro r hr b hb
      rw [hadmitted r hr] at hb
      cases hb
    · rw [Db.rowsOf, hitems', hitems]
      rw [Db.rowsOf] at hlog
      simp [hlog]
theorem CloudInv.take [Blob δ] {k b : Nat} {r : PushRequest ι κ δ} {quota : Int} {out : PushOut}
    {db : Db δ} (I : CloudInv hashes accountCipher cipher a username s keys)
    (hr : s.requests[k]? = some r) (hsession : r.session = some b)
    (h : pushSql s.db b (r.sent.map (·.item)) quota now = .ok (out, db)) {d : CloudDevice κ}
    (hd : d.account = (s.dev r.device).account) :
    CloudInv hashes accountCipher cipher a username
      { s.setDev r.device d with db, requests := s.requests.eraseIdx k } keys := by
  have hmem := mem_of_getElem? hr
  obtain ⟨rfl, hkeys⟩ := I.admitted r hmem b hsession
  have hdev := Cloud.account_setDev (s := s) (i := r.device) (d := d) fun _ h => hd ▸ h
  have herase : ∀ r' ∈ s.requests.eraseIdx k, r' ∈ s.requests := fun _ => mem_of_mem_eraseIdx
  have htokens : TokensOf hashes b s.db db none := by
    obtain ⟨acc, st, -, -, -, rfl⟩ := pushSql_ok h
    exact tokensOf_self
  refine I.frame ?_ (fun row hrow => ?_) htokens nofun ?_
    (fun j live hlive => I.usernames j live (hdev j live hlive))
    (fun r' hr' => I.requests r' (herase r' hr')) fun r' hr' => I.admitted r' (herase r' hr')
  · obtain ⟨x, hx⟩ := I.account
    obtain ⟨acc, st, -, -, -, rfl⟩ := pushSql_ok h
    have haccount : ({ s.db with syncItems := st.items } : Db δ).account? b = some x := hx.account
    obtain ⟨hfound, hnamed⟩ := Db.found_updateAccount
      (f := fun x => { x with nextSeq := st.nextSeq, usedBytes := st.current })
      (fun _ => ⟨rfl, rfl⟩) haccount hx.named
    exact ⟨_, hfound, hnamed, hx.auth, hx.keys⟩
  · rcases pushSql_source h hrow with ⟨item, hitem, hk, hd, -⟩ | ⟨hrow, -⟩
    · obtain ⟨x, hx, rfl⟩ := mem_map.mp hitem
      obtain ⟨iv, logicalKey, op, hsealed⟩ := I.requests r hmem x hx
      rw [hkeys] at hsealed
      exact ⟨iv, logicalKey, op, by rw [hk, hsealed], by rw [hd, hsealed]⟩
    · exact I.rows row hrow
  · rintro token' k (⟨j, live, hlive, h⟩ | ⟨r', hr', h⟩ | h)
    · exact .inl (.inl ⟨j, live, hdev j live hlive, h⟩)
    · exact .inl (.inr (.inl ⟨r', herase r' hr', h⟩))
    · exact .inl (.inr (.inr h))

theorem CloudInv.send [Blob δ] {live : LiveAccount κ} {sent : List (SentChange δ)}
    {d : CloudDevice κ}
    (I : CloudInv hashes accountCipher cipher a username s keys)
    (hlive : (s.dev i).account = some live) (hd : d.account = some live)
    (hsent : ∀ x ∈ sent, ∃ iv logicalKey op,
      x.item = sealSyncItem cipher live.keys iv logicalKey op) :
    CloudInv hashes accountCipher cipher a username
      { s.setDev i d with requests := if sent.isEmpty then s.requests
          else s.requests ++ [⟨i, live, sent, none⟩] } keys := by
  have hdev := Cloud.account_setDev (s := s) (i := i) (d := d) fun _ h => hlive ▸ hd ▸ h
  have hrequests : ∀ r ∈ (if sent.isEmpty then s.requests
      else s.requests ++ [⟨i, live, sent, none⟩]), r ∈ s.requests ∨ r = ⟨i, live, sent, none⟩ := by
    intro r hr
    split at hr
    · exact .inl hr
    · simpa using hr
  refine I.frame (I.account.imp fun _ hx => hx.congr rfl rfl) I.rows tokensOf_self
    nofun ?_
    (fun j live hlive => I.usernames j live (hdev j live hlive)) (fun r hr => ?_) fun r hr => ?_
  · rintro token' k (⟨j, live, hlive, h⟩ | ⟨r, hr, h⟩ | h)
    · exact .inl (.inl ⟨j, live, hdev j live hlive, h⟩)
    · rcases hrequests r hr with hr | rfl
      · exact .inl (.inr (.inl ⟨r, hr, h⟩))
      · exact .inl (.inl ⟨i, live, hlive, h⟩)
    · exact .inl (.inr (.inr h))
  · rcases hrequests r hr with hr | rfl
    · exact I.requests r hr
    · exact hsent
  · rcases hrequests r hr with hr | rfl
    · exact I.admitted r hr
    · exact nofun

omit [DecidableEq ι] in
theorem CloudInv.accept {k : Nat} {r : PushRequest ι κ δ} {session : Session} {db : Db δ}
    (I : CloudInv hashes accountCipher cipher a username s keys) (hr : r ∈ s.requests)
    (hauth : authSql hashes s.db r.live.token now = (.ok session, db)) :
    CloudInv hashes accountCipher cipher a username { s with
      db, requests := s.requests.set k { r with session := some session.accountId } } keys := by
  have hsession := I.session (.inr (.inl ⟨r, hr, rfl, rfl⟩)) (congrArg Prod.fst hauth)
  obtain ⟨haccounts, hitems, htokens⟩ := tokensOf_auth (a := a) hauth
  refine I.frame (I.account.imp fun _ hx => hx.congr haccounts rfl)
    (by rw [Db.rowsOf, hitems]; exact I.rows) htokens nofun ?_ I.usernames (fun r' hr' => ?_)
    fun r' hr' => ?_
  · rintro token' k' (h | ⟨r', hr', h⟩ | h)
    · exact .inl (.inl h)
    · rcases mem_or_eq_of_mem_set hr' with hr' | rfl
      · exact .inl (.inr (.inl ⟨r', hr', h⟩))
      · exact .inl (.inr (.inl ⟨r, hr, h⟩))
    · exact .inl (.inr (.inr h))
  · rcases mem_or_eq_of_mem_set hr' with hr' | rfl
    · exact I.requests r' hr'
    · exact I.requests r hr
  · rcases mem_or_eq_of_mem_set hr' with hr' | rfl
    · exact I.admitted r' hr'
    · rintro b ⟨⟩
      exact hsession

/-- A device takes the answer to its change, and has no name if it was logged out meanwhile. -/
theorem CloudInv.adopt {k : Nat} {live : LiveAccount κ} {name : String}
    (I : CloudInv hashes accountCipher cipher a username s keys) (hreply : (i, live) ∈ s.replies)
    (hname : name = username ∨ name = "") :
    CloudInv hashes accountCipher cipher a username
      { s.setDev i { s.dev i with account := some { live with username := name } } with
        replies := s.replies.eraseIdx k } keys := by
  refine I.frame (I.account.imp fun _ hx => hx.congr rfl rfl) I.rows tokensOf_self
    nofun ?_ (fun j live' hlive' => ?_) I.requests I.admitted
  · rintro token' k' (⟨j, live', hlive', h⟩ | h | ⟨p, hp, h⟩)
    · rw [Cloud.setDev_dev] at hlive'
      split at hlive'
      · cases hlive'
        exact .inl (.inr (.inr ⟨_, hreply, h⟩))
      · exact .inl (.inl ⟨j, live', hlive', h⟩)
    · exact .inl (.inr (.inl h))
    · exact .inl (.inr (.inr ⟨p, mem_of_mem_eraseIdx hp, h⟩))
  · rw [Cloud.setDev_dev] at hlive'
    split at hlive'
    · cases hlive'
      exact hname
    · exact I.usernames j live' hlive'

theorem CloudInv.step [Blob δ] {act : CloudAction ι ν}
    (hkeys : KeysIdentified hashes accountCipher) (hok : CloudAllowed hashes accountCipher a s act)
    (I : CloudInv hashes accountCipher cipher a username s keys)
    (h : cloudStep hashes accountCipher cipher username s act = some s') :
    ∃ keys', CloudInv hashes accountCipher cipher a username s' keys' := by
  cases act with
  | login i password deviceName token now =>
    cases h
    exact ⟨keys, I.login hkeys hok⟩
  | logout i =>
    have hclear := Cloud.account_setDev (s := s) (i := i) (d := (s.dev i).clear) nofun
    simp only [cloudStep] at h
    split at h <;> cases h
    · exact ⟨keys, I.quiet rfl rfl rfl tokensOf_self hclear (fun _ => id) fun _ => id⟩
    · obtain ⟨haccounts, hitems, htokens⟩ := logoutSql_frame hashes s.db _
      exact ⟨keys, I.quiet haccounts hitems rfl (fun t ht => .inl ⟨t, htokens t ht, rfl, rfl⟩) hclear
        (fun _ => id) fun _ => id⟩
  | write i w =>
    cases h
    exact ⟨keys, I.quiet rfl rfl rfl tokensOf_self (Cloud.account_setDev fun _ => id) (fun _ => id)
      fun _ => id⟩
  | pull i uuid now =>
    simp only [cloudStep] at h
    split at h
    · cases h
    next live _ =>
    split at h
    · next hauth =>
      cases h
      obtain ⟨haccounts, hitems, htokens⟩ := tokensOf_auth (a := a) hauth
      exact ⟨keys, I.quiet haccounts hitems rfl htokens (Cloud.account_setDev nofun) (fun _ => id)
        fun _ => id⟩
    next hauth =>
    cases h
    obtain ⟨haccounts, hitems, htokens⟩ := tokensOf_auth (a := a) hauth
    exact ⟨keys, I.quiet haccounts hitems rfl htokens (Cloud.account_setDev fun _ => id)
      (fun _ => id) fun _ => id⟩
  | send i findMessage iv now =>
    simp only [cloudStep] at h
    split at h
    · cases h
    next live hlive =>
    cases h
    refine ⟨keys, I.send hlive hlive fun x hx => ?_⟩
    rcases fillBatch_sealed hx with hx | ⟨logicalKey, op, hitem⟩
    · cases hx
    · exact ⟨iv logicalKey, logicalKey, op, hitem⟩
  | accept k now =>
    simp only [cloudStep] at h
    split at h
    · cases h
    next r hr =>
    have hmem := mem_of_getElem? hr
    split at h
    · next hauth =>
      cases h
      obtain ⟨haccounts, hitems, htokens⟩ := tokensOf_auth (a := a) hauth
      exact ⟨keys, I.quiet haccounts hitems rfl htokens (Cloud.account_setDev nofun)
        (fun _ => mem_of_mem_eraseIdx) fun _ => id⟩
    · next hauth =>
      cases h
      exact ⟨keys, I.accept hmem hauth⟩
  | take k quota now =>
    simp only [cloudStep] at h
    split at h
    · cases h
    next r hr =>
    split at h
    · cases h
    next b hsession =>
    have herase : ∀ r' ∈ s.requests.eraseIdx k, r' ∈ s.requests := fun _ => mem_of_mem_eraseIdx
    split at h
    · cases h
      exact ⟨keys, I.quiet rfl rfl rfl tokensOf_self (Cloud.account_setDev nofun) herase fun _ => id⟩
    · cases h
      exact ⟨keys, I.quiet rfl rfl rfl tokensOf_self (fun _ _ => id) herase fun _ => id⟩
    · next hpush =>
      cases h
      exact ⟨keys, I.take hr hsession hpush rfl⟩
  | changePassword i old new salt plain iv token now =>
    cases h
    exact I.changePassword hok.1 hok.2
  | adopt k =>
    simp only [cloudStep] at h
    split at h
    · cases h
    next i live hreply =>
    cases h
    refine ⟨keys, I.adopt (mem_of_getElem? hreply) ?_⟩
    cases haccount : (s.dev i).account with
    | none => exact .inr rfl
    | some current => exact I.usernames i current haccount

end step
/-! ## Whole runs -/

variable (hashes accountCipher cipher a username) in
/-- The live items are those of the keys of the password, which every device has that the relay lets
in. A device that logs in with the password gets the same keys; it opens every live item and would
push it under the item key it has, and its pull from the beginning meets nothing else. -/
structure Cloud.ItemsFollow (s : Cloud ι κ δ) (keys : SessionKeys κ) : Prop where
  current : ∃ x, s.IsCurrent hashes accountCipher a username x keys
  rows : ∀ r ∈ s.db.rowsOf a, SealedUnder cipher keys r
  devices : ∀ i, ∀ live ∈ (s.dev i).account, ∀ now session,
    (authSql hashes s.db live.token now).1 = .ok session → live.keys = keys
  login : ∀ i deviceName token now, s.Fresh hashes token →
    let s' := loginAccount hashes accountCipher s username i s.password deviceName token now
    ∀ live ∈ (s'.dev i).account, live.token = token →
      live.keys = keys ∧ (s'.dev i).dev.lastSeq = 0 ∧
      (∀ r ∈ s'.db.rowsOf a, ∃ logicalKey op, openSyncItem cipher live.keys.encKey r = some op ∧
        r.key = cipher.syncKeyForLogicalKey live.keys.macKey logicalKey) ∧
      ∀ uuid now, ∀ p ∈ (pullRemote (syncEnv cipher live.keys uuid now) (s'.dev i).dev
        (restRounds s'.db a)).seen, p.2 ≠ .undecryptable

omit [DecidableEq ι] in
theorem Cloud.Starts.inv (h : s.Starts hashes accountCipher a username) :
    ∃ keys, CloudInv hashes accountCipher cipher a username s keys := by
  obtain ⟨x, keys, hx⟩ := h.account
  refine ⟨keys, ⟨x, hx⟩, ?_, ?_, ?_, ?_, ?_⟩
  · rintro token k (⟨i, live, hlive, -⟩ | ⟨r, hr, -⟩ | ⟨p, hp, -⟩)
    · rw [h.dev i] at hlive; cases hlive
    · rw [h.requests] at hr; cases hr
    · rw [h.replies] at hp; cases hp
  · intro i live hlive
    rw [h.dev i] at hlive
    cases hlive
  · simp [h.requests]
  · simp [h.requests]
  · simp [h.rows]

theorem CloudInv.itemsFollow (I : CloudInv hashes accountCipher cipher a username s keys)
    (hcipher : cipher.Decrypts) : s.ItemsFollow hashes accountCipher cipher a username keys := by
  refine ⟨I.account, I.rows, fun i live hlive now session hauth =>
    (I.session (.inl ⟨i, live, hlive, rfl, rfl⟩) hauth).2, ?_⟩
  intro i deviceName token now hfresh
  obtain ⟨x, hx⟩ := I.account
  obtain ⟨db, -, hitems, -, hcases⟩ := loginAccount_cases hashes accountCipher
    username s i s.password deviceName token now
  generalize loginAccount hashes accountCipher s username i s.password deviceName token now = s'
    at hcases
  intro s' live hlive htoken
  have hrows : s'.db.rowsOf a = s.db.rowsOf a := by
    rw [Db.rowsOf, Db.rowsOf, ← hitems]
    rcases hcases with rfl | ⟨_, _, _, rfl⟩ <;> rfl
  have hlogin : live.keys = keys ∧ (s'.dev i).dev.lastSeq = 0 := by
    rcases hcases with rfl | ⟨x', hx', hauth, rfl⟩
    · -- the device would have had the token before
      obtain ⟨hash, hhash, -, hheld⟩ := hfresh
      exact absurd (htoken ▸ hhash) (hheld live.token live.keys (.inl ⟨i, live, hlive, rfl, rfl⟩))
    obtain rfl : x' = x := mem_unique hx' hx.named
    rw [Cloud.setDev_dev, if_pos rfl] at hlive ⊢
    cases hlive
    exact ⟨hx.keys, rfl⟩
  have hopens : ∀ r ∈ s'.db.rowsOf a, ∃ logicalKey op,
      openSyncItem cipher live.keys.encKey r = some op ∧
      r.key = cipher.syncKeyForLogicalKey live.keys.macKey logicalKey := by
    intro r hr
    rw [hrows] at hr
    obtain ⟨iv, logicalKey, op, hkey, hdata⟩ := I.rows r hr
    rw [hlogin.1]
    exact ⟨logicalKey, op, openSyncItem_sealed hcipher hkey hdata, hkey⟩
  refine ⟨hlogin.1, hlogin.2, hopens, fun uuid now => pullRemote_opened fun r hr => ?_⟩
  obtain rfl := eq_of_mem_replicate hr
  intro after out hout item hitem
  rw [(pullSql_ok hout).1] at hitem
  obtain ⟨_, op, hopen, -⟩ := hopens item (mem_of_mem_page hitem).1
  exact fun hnone => some_ne_none op (hopen.symm.trans hnone)

/-- In a run whose steps are all allowed, the live items follow the password. -/
theorem items_follow_password [Blob δ] {acts : List (CloudAction ι ν)} (hcipher : cipher.Decrypts)
    (hkeys : KeysIdentified hashes accountCipher) (hs : s.Starts hashes accountCipher a username)
    (h : Run (cloudStep hashes accountCipher cipher username) (CloudAllowed hashes accountCipher a)
      s acts s') : ∃ keys, s'.ItemsFollow hashes accountCipher cipher a username keys := by
  obtain ⟨keys, I⟩ := h.invariant
    (I := fun s => ∃ keys, CloudInv hashes accountCipher cipher a username s keys)
    (fun hok ⟨_, I⟩ hstep => I.step hkeys hok hstep) hs.inv
  exact ⟨keys, I.itemsFollow hcipher⟩

end

/-! ## A run in the clear -/

local instance instBlobCloud : Blob (String × String × Op) := ⟨fun _ => 100, fun _ => 100⟩

/-- Hashes that hide nothing. -/
def plainHashes : AccountHashes := ⟨some, some, fun _ => some 16, fun _ => default⟩

/-- The keys show the password and the salt; a vault opens under the key and the name it was sealed
with. -/
def plainAccountCipher : AccountCipher String Unit where
  derive password kdf := let k := password ++ kdf.salt; ⟨k, ⟨k, k⟩⟩
  encryptVault k _ username plain := k ++ ":" ++ username ++ ":" ++ plain
  decryptVault k username vault :=
    let head := (k ++ ":" ++ username ++ ":").toList
    if head.isPrefixOf vault.toList then some (String.ofList (vault.toList.drop head.length))
    else none

/-- An account of which no device is logged in. -/
def plainCloud : Cloud Bool String (String × String × Op) where
  db := ⟨[⟨1, "ada", "p", "password1s", ⟨"pbkdf2-sha256", kdfIterations, "s"⟩,
    "password1s:ada:seed", 0, 0⟩], [], []⟩
  dev i := ⟨.fresh .web (if i then "a" else "b"), none⟩
  requests := []
  replies := []
  password := "password1"

theorem plainAccountCipher_keysIdentified : KeysIdentified plainHashes plainAccountCipher := by
  intro p p' kdf hash h h'
  have h : p ++ kdf.salt = hash := some.inj h
  have h' : p' ++ kdf.salt = hash := some.inj h'
  simp only [plainAccountCipher, h, h']

theorem plainCloud_starts : plainCloud.Starts plainHashes plainAccountCipher 1 "ada" :=
  ⟨⟨_, ⟨"password1s", "password1s"⟩, rfl, rfl, rfl, rfl⟩, rfl, fun _ => rfl, rfl, rfl⟩

/-- A setting is written and pushed. -/
def pushTheme : List (CloudAction Bool Unit) := [
  .write true ⟨"settings", some (.obj [("theme", .str "dark")]), 10⟩,
  .send true (fun _ _ => none) (fun _ => ()) 20, .accept 0 20, .take 0 1000 20]

/-- The first device changes the password, before it pushes. -/
theorem items_follow_password_theme :
    let acts : List (CloudAction Bool Unit) := .login true "password1" "" "t" 1 ::
      .changePassword true "password1" "password2" "u" "seed" () "t2" 2 :: .adopt 0 :: pushTheme
    ∃ s', Run (cloudStep plainHashes plainAccountCipher plainCipher "ada")
        (CloudAllowed plainHashes plainAccountCipher 1) plainCloud acts s' ∧
      (s'.db.rowsOf 1).map (·.key) = ["password2u-store_csettings_ctheme"] ∧
      ∃ keys, s'.ItemsFollow plainHashes plainAccountCipher plainCipher 1 "ada" keys := by
  intro acts
  let s₁ := loginAccount plainHashes plainAccountCipher plainCloud "ada" true "password1" "" "t" 1
  let s₂ := changePassword plainHashes plainAccountCipher s₁ true "password1" "password2" "u" "seed"
    () "t2" 2
  have hlogin : plainCloud.Fresh plainHashes "t" :=
    ⟨"t", rfl, nofun, by rintro token keys (⟨i, live, ⟨⟩, -⟩ | ⟨r, ⟨⟩, -⟩ | ⟨p, ⟨⟩, -⟩)⟩
  have hrequests : s₁.requests = [] := isEmpty_iff.mp (by decide +kernel)
  have hreplies : s₁.replies = [] := isEmpty_iff.mp (by decide +kernel)
  have hchange : s₁.Fresh plainHashes "t2" := by
    have hheld : ∀ i, ((s₁.dev i).account.map (·.token)) ≠ some "t2" := by decide +kernel
    refine ⟨"t2", rfl, by decide +kernel, ?_⟩
    rintro token keys (⟨i, live, hlive, rfl, -⟩ | ⟨r, hr, -⟩ | ⟨p, hp, -⟩) h
    · exact hheld i (by rw [mem_def.mp hlive]; exact h)
    · rw [hrequests] at hr; cases hr
    · rw [hreplies] at hp; cases hp
  have hempty : s₁.db.rowsOf 1 = [] ∧ ∀ r ∈ s₁.requests, r.session = none :=
    ⟨isEmpty_iff.mp (by decide +kernel), by simp [hrequests]⟩
  have hexec : ((exec (cloudStep plainHashes plainAccountCipher plainCipher "ada") s₂
      (.adopt 0 :: pushTheme)).map fun s' => (s'.db.rowsOf 1).map (·.key)) =
      some ["password2u-store_csettings_ctheme"] := by decide +kernel
  obtain ⟨s', hs', hrows⟩ := map_eq_some_iff.mp hexec
  have hrun : Run (cloudStep plainHashes plainAccountCipher plainCipher "ada")
      (CloudAllowed plainHashes plainAccountCipher 1) plainCloud acts s' :=
    .cons hlogin rfl <| .cons ⟨hchange, fun _ => hempty⟩ rfl <|
      .of_exec_of_forall (by simp [pushTheme, CloudAllowed]) hs'
  exact ⟨s', hrun, hrows, items_follow_password plainCipher_decrypts
    plainAccountCipher_keysIdentified plainCloud_starts hrun⟩

/-- An item is pushed before the password is changed: it stays under the old keys. A second device
logs in with the new password, and cannot decrypt the item that its pull brings. -/
theorem items_stay_under_old_keys :
    let acts : List (CloudAction Bool Unit) :=
      .login true "password1" "" "t" 1 :: pushTheme ++ [
        .changePassword true "password1" "password2" "u" "seed" () "t2" 30, .adopt 0,
        .login false "password2" "" "t3" 40]
    plainCloud.Starts plainHashes plainAccountCipher 1 "ada" ∧
    ∃ s', FreeRun (cloudStep plainHashes plainAccountCipher plainCipher "ada") plainCloud acts s' ∧
      (¬∃ keys, s'.ItemsFollow plainHashes plainAccountCipher plainCipher 1 "ada" keys) ∧
      ∃ live r, (s'.dev false).account = some live ∧ live.token = "t3" ∧ s'.db.rowsOf 1 = [r] ∧
        r.key ≠ plainCipher.syncKeyForLogicalKey live.keys.macKey "store:settings:theme" ∧
        (pullRemote (syncEnv plainCipher live.keys toString 50) (s'.dev false).dev
          (restRounds s'.db 1)).seen = [(r, .undecryptable)] := by
  intro acts
  let op : Op := ⟨10, "a", .storeEntry "settings" "theme" (some (.str "dark"))⟩
  let row : SyncRow (String × String × Op) :=
    ⟨1, "password1s-store_csettings_ctheme",
      ("password1s", "password1s-store_csettings_ctheme", op), 20⟩
  let live : LiveAccount String := ⟨"ada", "t3", ⟨"password2u", "password2u"⟩⟩
  let run := exec (cloudStep plainHashes plainAccountCipher plainCipher "ada") plainCloud acts
  have hsalt : (run.map fun s' => (s'.password, (s'.db.account? 1).map (·.kdf.salt))) =
      some ("password2", some "u") := by decide +kernel
  have hlive : (run.map fun s' => (s'.dev false).account) = some (some live) := by decide +kernel
  have hrows : (run.map fun s' => s'.db.rowsOf 1) = some [row] := by decide +kernel
  have hpull : (run.map fun s' => (pullRemote (syncEnv plainCipher live.keys toString 50)
      (s'.dev false).dev (restRounds s'.db 1)).seen) = some [(row, .undecryptable)] := by
    decide +kernel
  obtain ⟨s', hrun, hsalt⟩ := map_eq_some_iff.mp hsalt
  rw [hrun] at hlive hrows hpull
  obtain ⟨hpassword, hsalt⟩ := Prod.mk.inj hsalt
  have hlive : (s'.dev false).account = some live := some.inj hlive
  have hrows : s'.db.rowsOf 1 = [row] := some.inj hrows
  refine ⟨plainCloud_starts, s', .of_exec hrun, ?_, live, row, hlive, rfl, hrows, by decide +kernel,
    some.inj hpull⟩
  rintro ⟨keys, F⟩
  obtain ⟨x, hx⟩ := F.current
  have hsalt : x.kdf.salt = "u" := by simpa [hx.account] using hsalt
  have hkeys : keys = live.keys := by
    rw [← hx.keys, hpassword]
    simp only [plainAccountCipher, hsalt]
    decide +kernel
  obtain ⟨iv, logicalKey, sealedOp, hkey, hdata⟩ := F.rows row (by rw [hrows]; simp)
  have hopen := openSyncItem_sealed plainCipher_decrypts hkey hdata
  have hnone : openSyncItem plainCipher live.keys.encKey row = none := by decide +kernel
  rw [hkeys, hnone] at hopen
  cases hopen

end Bluetalk.CloudAccount

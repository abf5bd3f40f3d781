import Bluetalk.CloudAccount.Convergence
import Bluetalk.Relay.Accounts

/-!
# Sessions

Devices that log in to one account, change its password, push and pull: `loginAccount`,
`changePassword` and `logoutAccount` of `src/renderer/cloudAccount/session.js` around the sync
engine. A push is a request on its way: the relay checks its token and takes its items in two
separate jobs, and it is sealed under the keys of the session that sent it. A password change
reaches the device after the relay has made it. `Cloud.password` keeps, for the statements only, the
password of the account.
-/

namespace Bluetalk.CloudAccount
open Relay Storage

/-- What `deriveKeys` returns. -/
structure DerivedKeys (κ : Type) where
  authKey : String
  keys : SessionKeys κ

/-- The primitives of `crypto.js` for the keys of an account. -/
structure AccountCipher (κ ν : Type) where
  /-- PBKDF2 of a password, and the three keys that HKDF derives from it -/
  derive : String → Kdf → DerivedKeys κ
  /-- AES-GCM with the name of the account as additional data -/
  encryptVault : κ → ν → String → String → String
  decryptVault : κ → String → String → Option String

variable {ι κ ν δ : Type}

/-- `USERNAME_RE` -/
def isValidUsername (username : String) : Bool :=
  3 ≤ username.length && username.length ≤ 32 && username.toList.all fun c =>
    ('a' ≤ c && c ≤ 'z') || ('0' ≤ c && c ≤ '9') || c == '_' || c == '.' || c == '-'

/-- `newKdf()`, with the salt it draws. -/
def newKdf (salt : String) : Kdf := ⟨"pbkdf2-sha256", kdfIterations, salt⟩

/-- `deriveKeys(username, password, kdf)` of a normalized name, `none` when it throws -/
def deriveKeys (cipher : AccountCipher κ ν) (username password : String) (kdf : Kdf) :
    Option (DerivedKeys κ) :=
  if !isValidUsername username || password = "" || kdf.salt = "" then none
  else some (cipher.derive password kdf)

/-- The account of a device that is logged in. -/
structure LiveAccount (κ : Type) where
  username : String
  token : String
  keys : SessionKeys κ
  deriving DecidableEq

structure CloudDevice (κ : Type) where
  dev : Device
  account : Option (LiveAccount κ)

/-- `clearSyncPersistence`, and the sequence number that goes with the account. -/
def Device.resetSync (d : Device) : Device :=
  { d with outbox := [], syncMeta := emptySyncMeta, lastSeq := 0 }

/-- `clearAccountLocal()` -/
def CloudDevice.clear (d : CloudDevice κ) : CloudDevice κ := ⟨d.dev.resetSync, none⟩

/-- A request of a push on its way; `session` is the account it was admitted to. -/
structure PushRequest (ι κ δ : Type) where
  device : ι
  live : LiveAccount κ
  sent : List (SentChange δ)
  session : Option Nat

structure Cloud (ι κ δ : Type) where
  db : Db δ
  dev : ι → CloudDevice κ
  requests : List (PushRequest ι κ δ)
  /-- the accounts that devices will have after the password changes the relay has made -/
  replies : List (ι × LiveAccount κ)
  password : String

inductive CloudAction (ι ν : Type)
  | login (i : ι) (password deviceName token : String) (now : Int)
  | logout (i : ι)
  | write (i : ι) (w : LocalWrite)
  | pull (i : ι) (uuid : Nat → String) (now : Int)
  /-- `pushOutbox` up to its request -/
  | send (i : ι) (findMessage : String → String → Option Message) (iv : String → ν) (now : Int)
  /-- `session_of` for the request at this place -/
  | accept (k : Nat) (now : Int)
  /-- the push itself, and its answer -/
  | take (k : Nat) (quota now : Int)
  | changePassword (i : ι) (old new salt plain : String) (iv : ν) (token : String) (now : Int)
  /-- the answer to the password change at this place -/
  | adopt (k : Nat)

variable [DecidableEq ι]

def Cloud.setDev (s : Cloud ι κ δ) (i : ι) (d : CloudDevice κ) : Cloud ι κ δ :=
  { s with dev := Function.update s.dev i d }

section
variable (hashes : AccountHashes) (accountCipher : AccountCipher κ ν) (cipher : SyncCipher κ ν δ)

/-- `loginAccount({ username, password })` -/
def loginAccount (s : Cloud ι κ δ) (username : String) (i : ι)
    (password deviceName token : String) (now : Int) : Cloud ι κ δ :=
  match deriveKeys accountCipher username password (preloginSql hashes s.db username) with
  | none => s
  | some derived =>
    match loginSql hashes s.db username derived.authKey deviceName token now with
    | (.error _, db) => { s with db }
    | (.ok out, db) =>
      let s := { s with db }
      match accountCipher.decryptVault derived.keys.encKey username out.vault with
      | none => s
      | some _ =>
        s.setDev i ⟨(s.dev i).dev.resetSync, some ⟨out.username, out.token, derived.keys⟩⟩

/-- `changePassword(oldPassword, newPassword)` up to the answer of the relay; `plain` is what the
vault holds. -/
def changePassword (s : Cloud ι κ δ) (i : ι) (old new salt plain : String) (iv : ν)
    (token : String) (now : Int) : Cloud ι κ δ :=
  match (s.dev i).account with
  | none => s
  | some live =>
    let kdf := newKdf salt
    match deriveKeys accountCipher live.username old (preloginSql hashes s.db live.username),
      deriveKeys accountCipher live.username new kdf with
    | some current, some next =>
      if utf16Length new < 8 then s
      else
        match authSql hashes s.db live.token now with
        | (.error _, db) => { s with db }
        | (.ok session, db) =>
          let vault := accountCipher.encryptVault next.keys.encKey iv live.username plain
          match passwordSql hashes db session.accountId ⟨current.authKey, kdf, next.authKey, vault⟩
            "" token now with
          | (.error _, db) => { s with db }
          | (.ok token, db) =>
            { s with
              db
              replies := s.replies ++ [(i, { live with token, keys := next.keys })]
              password := new }
    | _, _ => s

variable [Blob δ]

/-- One step; `username` is the name that the devices log in with. -/
def cloudStep (username : String) (s : Cloud ι κ δ) : CloudAction ι ν → Option (Cloud ι κ δ)
  | .login i password deviceName token now =>
    some (loginAccount hashes accountCipher s username i password deviceName token now)
  | .logout i =>
    match (s.dev i).account with
    | none => some (s.setDev i (s.dev i).clear)
    | some live =>
      some { s.setDev i (s.dev i).clear with db := (logoutSql hashes s.db live.token).2 }
  | .write i w =>
    -- the sync listens while there is an account
    let d := s.dev i
    some (s.setDev i { d with
      dev := if d.account.isSome then d.dev.localWrite w else d.dev.write w.key w.value })
  | .pull i uuid now =>
    match (s.dev i).account with
    | none => none
    | some live =>
      match authSql hashes s.db live.token now with
      | (.error _, db) => some { s.setDev i (s.dev i).clear with db }
      | (.ok session, db) =>
        let pulled := pullRemote (syncEnv cipher live.keys uuid now) (s.dev i).dev
          (restRounds db session.accountId)
        some { s.setDev i { s.dev i with dev := pulled.dev } with db }
  | .send i findMessage iv now =>
    match (s.dev i).account with
    | none => none
    | some live =>
      let batch := fillBatch (fun k => sealSyncItem cipher live.keys (iv k) k) findMessage now
        (s.dev i).dev (s.dev i).dev.outbox []
      some { s.setDev i { s.dev i with dev := batch.1 } with
        requests := if batch.2.isEmpty then s.requests
          else s.requests ++ [⟨i, live, batch.2, none⟩] }
  | .accept k now =>
    match s.requests[k]? with
    | none => none
    | some r =>
      match authSql hashes s.db r.live.token now with
      | (.error _, db) =>
        -- `handleUnauthorized`
        some { s.setDev r.device (s.dev r.device).clear with db, requests := s.requests.eraseIdx k }
      | (.ok session, db) =>
        some { s with
          db
          requests := s.requests.set k { r with session := some session.accountId } }
  | .take k quota now =>
    match s.requests[k]? with
    | none => none
    | some r =>
      match r.session with
      | none => none
      | some a =>
        let s := { s with requests := s.requests.eraseIdx k }
        match pushSql s.db a (r.sent.map (·.item)) quota now with
        | .error .unauthorized => some (s.setDev r.device (s.dev r.device).clear)
        | .error _ => some s
        | .ok (_, db) =>
          let d := s.dev r.device
          some { s.setDev r.device { d with dev := d.dev.afterPush r.sent } with db }
  | .changePassword i old new salt plain iv token now =>
    some (changePassword hashes accountCipher s i old new salt plain iv token now)
  | .adopt k =>
    match s.replies[k]? with
    | none => none
    | some (i, live) =>
      let username := (((s.dev i).account).map (·.username)).getD ""
      some { s.setDev i { s.dev i with account := some { live with username } } with
        replies := s.replies.eraseIdx k }

end
end Bluetalk.CloudAccount

import Bluetalk.Relay.AccountJobs

/-!
# How long a token is good

A run of the account store with a record of the tokens it returned (`Grant`): when each was last
accepted, whether it expired, was logged out or was revoked by a change of the password, and how many
tokens of its account were issued since. `cap_tokens` keeps the first twenty tokens in the order of
their last use, so where an account has more it deletes the newest one.
-/

open List Option

namespace Bluetalk.Relay

structure Grant where
  token : String
  accountId : Nat
  /-- when it was issued or last accepted -/
  lastUsed : Int
  /-- a clock reading ninety days after the last use was taken -/
  expired : Bool := false
  /-- logged out, or invalidated by a later change of the password or with the account -/
  revoked : Bool := false
  /-- the tokens of the account that were issued since -/
  newer : Nat := 0
  deriving DecidableEq

variable {δ : Type} {now : Int} {hashes : AccountHashes} {db : Db δ} {a : Nat}
  {deviceName token : String}

namespace Grant

def tick (now : Int) (g : Grant) : Grant :=
  if g.lastUsed < now - tokenTtlMs then { g with expired := true } else g

def revokeIf (p : Grant → Bool) (g : Grant) : Grant :=
  if p g then { g with revoked := true } else g

/-- A token of account `a` is issued. -/
def outdate (a : Nat) (g : Grant) : Grant :=
  if g.accountId = a then { g with newer := g.newer + 1 } else g

/-- The tokens with the hash of `token` are accepted. -/
def touch (hashes : AccountHashes) (token : String) (now : Int) (g : Grant) : Grant :=
  if hashes.hashToken g.token = hashes.hashToken token then { g with lastUsed := now } else g

end Grant

/-- A token was issued for account `a`, or not. -/
def recordIssue (a : Nat) (now : Int) (grants : List Grant) : Except AccountError String → List Grant
  | .ok token => grants.map (·.outdate a) ++ [⟨token, a, now, false, false, 0⟩]
  | .error _ => grants

/-- A store and the tokens it returned. -/
structure Granting (δ : Type) where
  store : AccountStore δ := {}
  grants : List Grant := []

/-- The record after a job, from its reply and the store before. -/
def recordJob (hashes : AccountHashes) (s : AccountStore δ) (grants : List Grant) :
    AccountJob δ → AccountReply → List Grant
  | .register _ _ now, .register out =>
    recordIssue (s.lastId + 1) now (grants.map (·.tick now)) (out.map (·.token))
  | .login username _ _ _ now, .login out =>
    recordIssue ((s.db.accountNamed? username).elim 0 (·.id)) now (grants.map (·.tick now))
      (out.map (·.token))
  | .auth token now, .auth (.ok _) => (grants.map (·.tick now)).map (·.touch hashes token now)
  | .auth _ now, .auth (.error _) => grants.map (·.tick now)
  | .logout token, .logout (.ok ()) =>
    grants.map (·.revokeIf fun g => hashes.hashToken g.token = hashes.hashToken token)
  | .password a input _ _ now, .password out =>
    recordIssue a now ((grants.map (·.revokeIf fun g =>
      g.accountId = a && changesPassword hashes s.db a input)).map (·.tick now)) out
  | .deleteAccount a _, .deleteAccount (.ok ()) => grants.map (·.revokeIf fun g => g.accountId = a)
  | _, _ => grants

/-- The tokens of an account. -/
def tokensAt (tokens : List TokenRow) (a : Nat) : List TokenRow :=
  tokens.filter fun t => t.accountId = a

namespace Granting

variable [Blob δ] (hashes : AccountHashes) (keys : RegisterKeys) (quota : Nat)

def step (s : Granting δ) (job : AccountJob δ) : Option (Granting δ) :=
  let result := s.store.handle hashes keys quota job
  some ⟨result.2, recordJob hashes s.store s.grants job result.1⟩

/-- A token that was returned is accepted for its account until it expires, is revoked, or twenty
newer ones were issued; and no account has more than twenty. -/
structure Lawful (s : Granting δ) : Prop where
  accepted : ∀ g ∈ s.grants, g.expired = false → g.revoked = false → g.newer < maxTokens →
    ∀ now, ¬g.lastUsed < now - tokenTtlMs → ∃ session,
      (authSql hashes s.store.db g.token now).1 = .ok session ∧ session.accountId = g.accountId
  count : ∀ a, (tokensAt s.store.db.accountTokens a).length ≤ maxTokens

/-- Nobody logs in to an account that has twenty tokens in force. -/
def roomAtLogin (s : Granting δ) : AccountJob δ → Bool
  | .login username authKey _ _ now =>
    (s.store.db.accountNamed? username).all fun x =>
      hashes.hashAuthKey authKey ≠ some x.authKeyHash ||
        (tokensAt (pruneExpired s.store.db x.id now).accountTokens x.id).length < maxTokens
  | _ => true

end Granting

/-! ## The tokens of the table and the tokens returned -/

/-- Every token returned and still in force has its row. -/
structure Backed (hashes : AccountHashes) (tokens : List TokenRow) (grants : List Grant) : Prop where
  distinct : (tokens.map (·.hash)).Nodup
  rows : ∀ g ∈ grants, g.expired = false → g.revoked = false → ∃ t ∈ tokens,
    hashes.hashToken g.token = some t.hash ∧ t.accountId = g.accountId ∧ t.lastUsed = g.lastUsed
  count : ∀ a, (tokensAt tokens a).length ≤ maxTokens

/-- The token is the same, perhaps not in force any more. -/
structure Grant.Fades (g g' : Grant) : Prop where
  token : g'.token = g.token
  accountId : g'.accountId = g.accountId
  lastUsed : g'.lastUsed = g.lastUsed
  expired : g'.expired = false → g.expired = false
  revoked : g'.revoked = false → g.revoked = false

theorem Grant.fades_tick (now : Int) (g : Grant) : g.Fades (g.tick now) := by
  rw [tick]
  split
  · exact ⟨rfl, rfl, rfl, fun h => absurd h (Bool.noConfusion), id⟩
  · exact ⟨rfl, rfl, rfl, id, id⟩

theorem Grant.fades_revokeIf (p : Grant → Bool) (g : Grant) : g.Fades (g.revokeIf p) := by
  rw [revokeIf]
  split
  · exact ⟨rfl, rfl, rfl, id, fun h => absurd h (Bool.noConfusion)⟩
  · exact ⟨rfl, rfl, rfl, id, id⟩

theorem Grant.fades_outdate (a : Nat) (g : Grant) : g.Fades (g.outdate a) := by
  rw [outdate]
  split <;> exact ⟨rfl, rfl, rfl, id, id⟩

theorem Grant.unexpired {g : Grant} (h : (g.tick now).expired = false) :
    ¬g.lastUsed < now - tokenTtlMs := by
  rw [tick] at h
  split at h
  · cases h
  next hlast => exact hlast

namespace Backed

variable {hashes : AccountHashes} {tokens : List TokenRow} {grants : List Grant} {a : Nat}
  {now : Int} {token hash deviceName : String} {q : TokenRow → Bool}

theorem empty : Backed hashes [] [] where
  distinct := .nil
  rows _ h := absurd h not_mem_nil
  count _ := Nat.zero_le _

theorem filter (H : Backed hashes tokens grants) (q : TokenRow → Bool) {f : Grant → Grant}
    (hf : ∀ g : Grant, g.Fades (f g))
    (hq : ∀ g ∈ grants, (f g).expired = false → (f g).revoked = false → ∀ t ∈ tokens,
      hashes.hashToken g.token = some t.hash → t.accountId = g.accountId →
        t.lastUsed = g.lastUsed → q t) :
    Backed hashes (tokens.filter q) (grants.map f) where
  distinct := H.distinct.sublist (filter_sublist.map _)
  rows := by
    intro g' hg' hexpired hrevoked
    obtain ⟨g, hg, rfl⟩ := mem_map.mp hg'
    obtain ⟨t, ht, hhash, hid, hused⟩ :=
      H.rows g hg ((hf g).expired hexpired) ((hf g).revoked hrevoked)
    refine ⟨t, mem_filter.mpr ⟨ht, hq g hg hexpired hrevoked t ht hhash hid hused⟩, ?_⟩
    rw [(hf g).token, (hf g).accountId, (hf g).lastUsed]
    exact ⟨hhash, hid, hused⟩
  count b := ((filter_sublist.filter _).length_le).trans (H.count b)

theorem tick (H : Backed hashes tokens grants) : Backed hashes tokens (grants.map (·.tick now)) := by
  have H' := H.filter (fun _ => true) (Grant.fades_tick now) fun _ _ _ _ _ _ _ _ _ => rfl
  rwa [filter_true] at H'

theorem prune (H : Backed hashes tokens grants) (hq : ∀ t ∈ tokens, ¬t.lastUsed < now - tokenTtlMs → q t) :
    Backed hashes (tokens.filter q) (grants.map (·.tick now)) :=
  H.filter q (Grant.fades_tick now) fun _ _ hexpired _ t ht _ _ hused =>
    hq t ht (hused ▸ Grant.unexpired hexpired)

theorem revoke (H : Backed hashes tokens grants) {p : Grant → Bool} (hq : ∀ g ∈ grants, p g = false → ∀ t ∈ tokens, hashes.hashToken g.token = some t.hash →
      t.accountId = g.accountId → q t) :
    Backed hashes (tokens.filter q) (grants.map (·.revokeIf p)) := by
  refine H.filter q (Grant.fades_revokeIf p) fun g hg _ hrevoked t ht hhash hid _ =>
    hq g hg ?_ t ht hhash hid
  rw [Grant.revokeIf] at hrevoked
  split at hrevoked
  · cases hrevoked
  next hp => rwa [Bool.not_eq_true] at hp

theorem issue (H : Backed hashes tokens grants) (hhash : hashes.hashToken token = some hash)
    (hnew : ∀ t ∈ tokens, t.hash ≠ hash) (hroom : (tokensAt tokens a).length < maxTokens) :
    Backed hashes (tokens ++ [⟨hash, a, now, now, deviceName⟩]) (recordIssue a now grants (.ok token)) where
  distinct := by
    rw [map_append, map_singleton, ← concat_eq_append]
    refine H.distinct.concat fun h => ?_
    obtain ⟨t, ht, e⟩ := mem_map.mp h
    exact hnew t ht e
  rows := by
    intro g' hg' hexpired hrevoked
    rcases mem_append.mp hg' with hg' | hg'
    · obtain ⟨g, hg, rfl⟩ := mem_map.mp hg'
      have hf := Grant.fades_outdate a g
      obtain ⟨t, ht, hrow⟩ := H.rows g hg (hf.expired hexpired) (hf.revoked hrevoked)
      rw [hf.token, hf.accountId, hf.lastUsed]
      exact ⟨t, mem_append_left _ ht, hrow⟩
    · rw [mem_singleton.mp hg']
      exact ⟨_, mem_append_right _ mem_cons_self, hhash, rfl, rfl⟩
  count b := by
    by_cases hb : a = b
    · subst hb
      have hroom := Nat.succ_le_of_lt hroom
      simpa [tokensAt] using hroom
    · simpa [tokensAt, hb] using H.count b

theorem touch (H : Backed hashes tokens grants) (hhash : hashes.hashToken token = some hash) :
    Backed hashes (tokens.map fun t => if t.hash = hash then { t with lastUsed := now } else t)
      (grants.map (·.touch hashes token now)) where
  distinct := by
    have hkeep : ∀ t : TokenRow,
        (if t.hash = hash then { t with lastUsed := now } else t).hash = t.hash := by
      intro t
      split <;> rfl
    simpa only [List.map_map, Function.comp_def, hkeep] using H.distinct
  rows := by
    intro g' hg' hexpired hrevoked
    obtain ⟨g, hg, rfl⟩ := List.mem_map.mp hg'
    have hsame : (g.touch hashes token now).expired = g.expired ∧
        (g.touch hashes token now).revoked = g.revoked := by
      rw [Grant.touch]
      split <;> exact ⟨rfl, rfl⟩
    obtain ⟨t, ht, hrow, hid, hused⟩ := H.rows g hg (hsame.1 ▸ hexpired) (hsame.2 ▸ hrevoked)
    refine ⟨_, List.mem_map_of_mem ht, ?_⟩
    rw [Grant.touch, hhash, hrow]
    by_cases heq : t.hash = hash
    · simp [heq, hrow, hid]
    · simp [heq, hrow, hid, hused]
  count b := by
    have hkeep : ∀ t : TokenRow,
        (if t.hash = hash then { t with lastUsed := now } else t).accountId = t.accountId := by
      intro t
      split <;> rfl
    rw [tokensAt, List.filter_map, List.length_map]
    simp only [Function.comp_def, hkeep]
    exact H.count b

end Backed

theorem issueToken_room (hashes : AccountHashes) (db : Db δ) (a : Nat) (deviceName token : String)
    (now : Int) (hroom : (tokensAt (pruneExpired db a now).accountTokens a).length < maxTokens) :
    (∃ e, issueToken hashes db a deviceName token now = (.error e, pruneExpired db a now)) ∨
    ∃ hash, hashes.hashToken token = some hash ∧
      (∀ t ∈ (pruneExpired db a now).accountTokens, t.hash ≠ hash) ∧
      issueToken hashes db a deviceName token now = (.ok token, { pruneExpired db a now with
        accountTokens := (pruneExpired db a now).accountTokens ++
          [⟨hash, a, now, now, deviceName⟩] }) := by
  rw [issueToken]
  split
  · exact .inl ⟨_, rfl⟩
  next hash hhash =>
  split
  · exact .inl ⟨_, rfl⟩
  next hnew =>
  refine .inr ⟨hash, hhash, fun t ht e => hnew (any_eq_true.mpr ⟨t, ht, by simpa using e⟩), ?_⟩
  have hsurplus : ((tokensAt ((pruneExpired db a now).accountTokens ++
      [⟨hash, a, now, now, deviceName⟩]) a).insertionSort usedBefore).drop maxTokens = [] := by
    have hroom := Nat.succ_le_of_lt hroom
    simpa [tokensAt] using hroom
  rw [tokensAt] at hsurplus
  simp only [capTokens, hsurplus, Db.deleteTokens]
  simp

theorem Backed.issueToken {grants : List Grant} (H : Backed hashes db.accountTokens grants)
    (hroom : (tokensAt (pruneExpired db a now).accountTokens a).length < maxTokens) :
    Backed hashes (issueToken hashes db a deviceName token now).2.accountTokens
      (recordIssue a now (grants.map (·.tick now))
        (Relay.issueToken hashes db a deviceName token now).1) := by
  have hpruned : Backed hashes (pruneExpired db a now).accountTokens (grants.map (·.tick now)) := by
    refine H.prune fun t _ hused => ?_
    simp [hused]
  rcases issueToken_room hashes db a deviceName token now hroom with
    ⟨e, h⟩ | ⟨hash, hhash, hnew, h⟩
  · rw [h]
    exact hpruned
  · rw [h]
    exact hpruned.issue hhash hnew hroom

namespace Granting

variable {hashes : AccountHashes} {keys : RegisterKeys} {quota : Nat} {s s' : Granting δ}
  {authKey deviceName token : String} {now : Int} {a : Nat} {db : Db δ}

structure Inv (hashes : AccountHashes) (s : Granting δ) : Prop where
  wf : s.store.Wf
  backed : Backed hashes s.store.db.accountTokens s.grants

theorem Inv.lawful (H : s.Inv hashes) : s.Lawful hashes where
  accepted := by
    intro g hg hexpired hrevoked _ now hlast
    obtain ⟨t, ht, hhash, hid, hused⟩ := H.backed.rows g hg hexpired hrevoked
    obtain ⟨x, hx, hxid⟩ := H.wf.tokens t ht
    obtain ⟨y, hy⟩ := AccountStore.Wf.account_of_mem hx hxid
    have hfind : s.store.db.accountTokens.find? (fun u => u.hash = t.hash) = some t := by
      obtain ⟨u, hu⟩ := isSome_iff_exists.mp
        (find?_isSome (p := fun u : TokenRow => u.hash = t.hash) |>.mpr ⟨t, ht, by simp⟩)
      have huhash : u.hash = t.hash := by simpa using find?_some hu
      rw [hu, inj_on_of_nodup_map H.backed.distinct (mem_of_find?_eq_some hu) ht huhash]
    refine ⟨⟨t.accountId, y.username, y.peerId⟩, ?_, hid⟩
    simp only [authSql, hhash, hfind, hy, hused, if_neg hlast]
  count := H.backed.count

theorem Inv.login {username : String} (H : s.Inv hashes)
    (hroom : s.roomAtLogin hashes (.login username authKey deviceName token now)) :
    Backed hashes (loginSql hashes s.store.db username authKey deviceName token now).2.accountTokens
      (recordIssue ((s.store.db.accountNamed? username).elim 0 (·.id)) now
        (s.grants.map (·.tick now))
        ((loginSql hashes s.store.db username authKey deviceName token now).1.map (·.token))) := by
  have hticked : Backed hashes _ (s.grants.map (·.tick now)) := H.backed.tick
  rw [loginSql]
  cases hnamed : s.store.db.accountNamed? username with
  | none => exact hticked
  | some x =>
    simp only
    split
    · exact hticked
    next hkey =>
    have hroom' : (tokensAt (pruneExpired s.store.db x.id now).accountTokens x.id).length <
        maxTokens := by
      simpa [roomAtLogin, hnamed, not_not.mp hkey] using hroom
    have hissue : Backed hashes
        (issueToken hashes s.store.db x.id deviceName token now).2.accountTokens _ :=
      H.backed.issueToken hroom'
    revert hissue
    generalize issueToken hashes s.store.db x.id deviceName token now = result
    obtain ⟨_ | _, db⟩ := result <;> exact id

theorem Inv.password {input : PasswordIn} (H : s.Inv hashes) :
    Backed hashes (passwordSql hashes s.store.db a input deviceName token now).2.accountTokens
      (recordIssue a now ((s.grants.map (·.revokeIf fun g =>
        g.accountId = a && changesPassword hashes s.store.db a input)).map (·.tick now))
        (passwordSql hashes s.store.db a input deviceName token now).1) := by
  rcases passwordSql_eq hashes s.store.db a input deviceName token now with
    ⟨hchange, e, h⟩ | ⟨hchange, x, authKeyHash, kdf, vault, hx, h⟩
  · have hkept := H.backed.revoke (q := fun _ => true) (p := fun g =>
      g.accountId = a && changesPassword hashes s.store.db a input) fun _ _ _ _ _ _ _ => rfl
    rw [filter_true] at hkept
    rw [h]
    exact hkept.tick
  have hgone : Backed hashes ((s.store.db.updateAccount a fun x =>
      { x with authKeyHash, kdf, vault }).deleteTokens fun t => t.accountId = a).accountTokens
      (s.grants.map (·.revokeIf fun g =>
        g.accountId = a && changesPassword hashes s.store.db a input)) := by
    refine H.backed.revoke fun g _ hp t _ _ hid => ?_
    simp only [hchange, Bool.and_true, decide_eq_false_iff_not] at hp
    simpa [hid] using hp
  rw [h]
  -- the account has no token left
  refine hgone.issueToken ?_
  have hnone : tokensAt (pruneExpired ((s.store.db.updateAccount a fun x =>
      { x with authKeyHash, kdf, vault }).deleteTokens fun t => t.accountId = a) a now).accountTokens
      a = [] := by
    rw [tokensAt, filter_eq_nil_iff]
    intro t ht
    have ht := (mem_deleteTokens.mp (mem_deleteTokens.mp ht).1).2
    simpa using ht
  rw [hnone]
  decide

theorem Inv.register {input : RegisterIn} (H : s.Inv hashes) :
    Backed hashes (registerSql hashes keys s.store input token now).2.db.accountTokens
      (recordIssue (s.store.lastId + 1) now (s.grants.map (·.tick now))
        ((registerSql hashes keys s.store input token now).1.map (·.token))) := by
  rcases registerSql_eq hashes keys s.store input token now with
    ⟨e, h⟩ | ⟨x, -, -, -, -, result, rfl, h, hreply⟩
  · rw [h]
    exact H.backed.tick
  have hnone : tokensAt (pruneExpired (s.store.insertAccount x).db (s.store.lastId + 1)
      now).accountTokens (s.store.lastId + 1) = [] := by
    rw [tokensAt, filter_eq_nil_iff]
    intro t ht
    simpa using H.wf.tokens_above (Nat.lt_succ_self _) t (mem_deleteTokens.mp ht).1
  have hissue : Backed hashes (issueToken hashes (s.store.insertAccount x).db (s.store.lastId + 1)
      input.deviceName token now).2.accountTokens _ :=
    Backed.issueToken H.backed (by rw [hnone]; decide)
  rw [h]
  rcases hreply with ⟨e, herror, hreply⟩ | ⟨out, hok, hreply⟩
  · rw [herror] at hissue
    rw [hreply]
    exact hissue
  · rw [hok] at hissue
    rw [hreply]
    exact hissue

theorem Inv.auth (H : s.Inv hashes) :
    Backed hashes (authSql hashes s.store.db token now).2.accountTokens
      (recordJob (δ := δ) hashes s.store s.grants (.auth token now)
        (.auth (authSql hashes s.store.db token now).1)) := by
  have hticked : Backed hashes _ (s.grants.map (·.tick now)) := H.backed.tick
  rw [authSql]
  cases hhash : hashes.hashToken token with
  | none => exact hticked
  | some hash =>
  simp only
  cases ht : s.store.db.accountTokens.find? fun t => t.hash = hash with
  | none => exact hticked
  | some t =>
  simp only
  cases hx : s.store.db.account? t.accountId with
  | none => exact hticked
  | some x =>
  simp only
  split
  next hlast =>
    refine H.backed.prune fun u hu hused => ?_
    -- the row that expired is the one with the hash
    have hthash : t.hash = hash := by simpa using find?_some ht
    have hne : u.hash ≠ hash := fun e => hused (by
      rwa [inj_on_of_nodup_map H.backed.distinct hu (mem_of_find?_eq_some ht)
        (e.trans hthash.symm)])
    simpa using hne
  next => exact hticked.touch hhash

theorem Inv.logout (H : s.Inv hashes) :
    Backed hashes (logoutSql hashes s.store.db token).2.accountTokens
      (recordJob (δ := δ) hashes s.store s.grants (.logout token)
        (.logout (logoutSql hashes s.store.db token).1)) := by
  rw [logoutSql]
  cases hhash : hashes.hashToken token with
  | none => exact H.backed
  | some hash =>
  simp only
  split
  · refine H.backed.revoke fun g _ hp t _ htoken _ => ?_
    simp only [hhash, htoken, decide_eq_false_iff_not, Option.some.injEq] at hp
    simpa using hp
  · exact H.backed

theorem Inv.deleteAccount (H : s.Inv hashes)
    (h : deleteAccountSql hashes s.store.db a authKey = .ok db) :
    Backed hashes db.accountTokens (s.grants.map (·.revokeIf fun g => g.accountId = a)) := by
  simp only [deleteAccountSql] at h
  split at h
  · cases h
  split at h
  · cases h
  cases h
  refine H.backed.revoke fun g _ hp t _ _ hid => ?_
  simpa [hid] using hp

variable [Blob δ]

theorem deleteKeysSql_tokens {db' : Db δ} {n : Nat} {names : List String}
    (h : deleteKeysSql db a names = .ok (n, db')) : db'.accountTokens = db.accountTokens := by
  simp only [deleteKeysSql] at h
  split at h
  · cases h
  cases h
  split <;> rfl

theorem Inv.step (H : s.Inv hashes) {job : AccountJob δ} (hroom : s.roomAtLogin hashes job)
    (h : step hashes keys quota s job = some s') : s'.Inv hashes := by
  cases h
  refine ⟨H.wf.handle job, ?_⟩
  cases job with
  | register => exact H.register
  | login => exact H.login hroom
  | auth => exact H.auth
  | logout => exact H.logout
  | password => exact H.password
  | deleteAccount a authKey =>
    simp only [AccountStore.handle]
    cases hdelete : deleteAccountSql hashes s.store.db a authKey with
    | error e => exact H.backed
    | ok db => exact H.deleteAccount hdelete
  | push a items now =>
    simp only [AccountStore.handle]
    cases hpush : pushSql s.store.db a items quota now with
    | error e => exact H.backed
    | ok result =>
      obtain ⟨_, _, _, _, _, hdb⟩ := pushSql_ok hpush
      have htokens : result.2.accountTokens = s.store.db.accountTokens := by rw [hdb]; rfl
      exact htokens ▸ H.backed
  | deleteKeys a names =>
    simp only [AccountStore.handle]
    cases hdelete : deleteKeysSql s.store.db a names with
    | error e => exact H.backed
    | ok result => exact deleteKeysSql_tokens hdelete ▸ H.backed

/-- The law of the tokens holds as long as nobody logs in to an account with twenty tokens in
force. -/
theorem tokens_lawful {jobs : List (AccountJob δ)}
    (h : Run (Granting.step hashes keys quota) (fun s job => s.roomAtLogin hashes job = true) {} jobs s) :
    s.Lawful hashes := by
  have hinv := h.invariant (I := Inv hashes) (fun hroom H hstep => H.step hroom hstep)
    ⟨AccountStore.Wf.empty, Backed.empty⟩
  exact hinv.lawful

/-- A registration, a login, a change of the password and a use of the new token: of the three tokens
the last one is in force. -/
theorem tokens_lawful_password : ∃ jobs s, Run (Granting.step sampleHashes sampleKeys 0)
    (fun s job => s.roomAtLogin sampleHashes job = true) {} jobs s ∧
    s.grants.map (fun g => (g.token, g.revoked)) = [("t", true), ("t1", true), ("t2", false)] ∧
    Lawful sampleHashes (s : Granting String) := by
  let jobs : List (AccountJob String) := [sampleAccount, .login "u" "k" "" "t1" 5,
    .password 1 ⟨"k", ⟨"pbkdf2-sha256", kdfIterations, "s"⟩, "k2", "\x7b\x7d"⟩ "" "t2" 6, .auth "t2" 7]
  have hrun : (exec (Granting.step sampleHashes sampleKeys 0) {} jobs).map
      (fun s => s.grants.map fun g => (g.token, g.revoked)) =
        some [("t", true), ("t1", true), ("t2", false)] := by
    decide +kernel
  have hok : allowed (Granting.step sampleHashes sampleKeys 0) (fun s job => s.roomAtLogin sampleHashes job) {} jobs =
      true := by
    decide +kernel
  obtain ⟨s, hs, hgrants⟩ := map_eq_some_iff.mp hrun
  exact ⟨jobs, s, Run.of_allowed hok hs, hgrants, tokens_lawful (Run.of_allowed hok hs)⟩

/-- After a registration and twenty logins the last token is refused. -/
theorem newest_token_refused : ¬ ∀ jobs s, FreeRun (Granting.step sampleHashes sampleKeys 0) {} jobs s →
    Lawful sampleHashes (s : Granting String) := by
  intro h
  let jobs : List (AccountJob String) := sampleAccount ::
    (List.range 20).map fun i => .login "u" "k" "" (String.ofList (List.replicate i 'x')) (i + 1)
  let last : Grant := ⟨String.ofList (List.replicate 19 'x'), 1, 20, false, false, 0⟩
  have hrun : (exec (Granting.step sampleHashes sampleKeys 0) {} jobs).map
      (fun s => (s.grants.contains last, (authSql sampleHashes s.store.db last.token 21).1.isOk)) =
        some (true, false) := by
    decide +kernel
  obtain ⟨s, hs, hlast⟩ := map_eq_some_iff.mp hrun
  rw [Prod.mk.injEq] at hlast
  obtain ⟨session, hsession, -⟩ := (h jobs s (.of_exec hs)).accepted last
    (contains_iff_mem.mp hlast.1) rfl rfl (by decide) 21 (by decide)
  rw [hsession] at hlast
  cases hlast.2

end Granting

end Bluetalk.Relay

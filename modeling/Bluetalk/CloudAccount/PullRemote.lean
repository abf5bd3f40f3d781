import Bluetalk.Storage.Messages

/-!
# Pulling the log

`applyOp` and `pullRemote` of `src/renderer/cloudAccount/syncEngine.js`. What the engine awaits is
a parameter: the answers of the server (`Round`), the decryption of an item and the clock and
random ids of the message store (`PullEnv`). `PullState.seen` keeps, for the statements only, what
the loop did with every item of every page it fetched.
-/

open List

namespace Bluetalk.CloudAccount
open Storage Relay

/-- The local state of one device, as far as the sync reads and writes it. -/
structure Device where
  backend : Backend
  /-- `cloudDeviceId` -/
  origin : String
  store : JsObject Json
  messages : MessageTable
  outbox : List Change
  /-- `cloudSyncApplied` -/
  syncMeta : SyncMeta
  lastSeq : Nat
  deriving DecidableEq

/-- A device on which nothing is stored. -/
def Device.fresh (backend : Backend) (origin : String) : Device :=
  ⟨backend, origin, .empty, ⟨[], 0⟩, [], emptySyncMeta, 0⟩

/-- The default `applyOp` reads a store key with. -/
def storeDefault (key : String) : Json :=
  if key = "contacts" ∨ key = "groups" then .arr [] else .obj []

def Device.storeValue (d : Device) (key : String) : Json :=
  (d.store.get? key).getD (storeDefault key)

structure PullEnv (δ : Type) where
  /-- `openSyncItem(live.encKey, item)`, `none` when it throws -/
  openItem : SyncRow δ → Option Op
  /-- `crypto.randomUUID()` for the row to be numbered next -/
  uuid : Nat → String
  now : Int

/-- Items that carry their operation in the clear. -/
def plainEnv : PullEnv Op := ⟨fun item => some item.data, fun n => toString n, 0⟩

variable {δ : Type}

/-- One entry of an operation on a whole store. -/
def applyStoreOpEntry (outbox : List Change) (key : String) (ts : Int) (origin : String)
    (acc : Json × SyncMeta × Bool) (entry : String × Json) : Json × SyncMeta × Bool :=
  let (current, m, any) := acc
  if shouldApplyStoreEntry ts (storeEntryAppliedTs m key entry.1)
      (pendingTsFor outbox (storeEntryKey key entry.1)) then
    (applyStoreEntryToValue key current entry.1 (some entry.2),
      appliedMetaAfterOp m ⟨ts, origin, .storeEntry key entry.1 (some entry.2)⟩, true)
  else (current, m, any)

/-- The device and the metadata after an operation, and whether it was applied. -/
def applyOp (env : PullEnv δ) (d : Device) (m : SyncMeta) (op : Op) :
    Except StorageError (Device × SyncMeta × Bool) := do
  match op.body with
  | .storeEntry key id patch =>
    if key ∉ syncedStoreKeys ∨ id = "" then return (d, m, false)
    if !shouldApplyStoreEntry op.ts (storeEntryAppliedTs m key id)
        (pendingTsFor d.outbox (logicalKeyOfOp op)) then return (d, m, false)
    let merged := applyStoreEntryToValue key (d.storeValue key) id patch
    return ({ d with store := d.store.set key merged }, appliedMetaAfterOp m op, true)
  | .store key value =>
    if key ∉ syncedStoreKeys then return (d, m, false)
    if !shouldApplyStoreOp op.ts ((m.storeTs.get? key).getD 0) then return (d, m, false)
    let (current, next, any) := (entriesOfStore key value).fields.foldl
      (applyStoreOpEntry d.outbox key op.ts op.origin) (d.storeValue key, m, false)
    if any then
      return ({ d with store := d.store.set key current }, appliedMetaAfterOp next op, true)
    else return (d, next, false)
  | .chatDel peerId =>
    if peerId = "" then return (d, m, false)
    let messages ← d.backend.deleteChat d.messages peerId
    return ({ d with messages }, appliedMetaAfterOp m op, true)
  | .msgDel peerId messageId =>
    if peerId = "" ∨ messageId = "" then return (d, m, false)
    if !shouldApplyMessage op.ts (m.tombstone peerId) then return (d, m, false)
    let messages ← d.backend.deleteMessage d.messages peerId messageId
    return ({ d with messages }, m, true)
  | .msg peerId _ (some message) =>
    if peerId = "" then return (d, m, false)
    if !shouldApplyMessage (messageTs message) (m.tombstone peerId) then return (d, m, false)
    let (messages, appended) ←
      d.backend.append d.messages peerId message (env.uuid (d.messages.lastSeq + 1)) env.now
    if !appended && (message.field "messageId").truthy then
      let messages ← d.backend.patch messages peerId (message.field "messageId").textOrEmpty
        message.fields
      return ({ d with messages }, appliedMetaAfterOp m op, true)
    return ({ d with messages }, appliedMetaAfterOp m op, true)
  | .msg _ _ none | .unknown => return (d, m, false)

/-- What the loop did with an item. -/
inductive Outcome
  | undecryptable | ownOrigin | outdated | applied
  /-- The message store threw. -/
  | failed
  deriving DecidableEq

/-- The variables of `pullRemote`. -/
structure PullState (δ : Type) where
  dev : Device
  after : Nat
  syncMeta : SyncMeta
  appliedOps : List Op
  more : Bool
  seen : List (SyncRow δ × Outcome)

inductive PullError
  /-- The request failed. -/
  | api (e : AccountError)
  /-- The message store threw. -/
  | storage (e : StorageError)
  /-- The loop still waits for a page. -/
  | waiting

/-- The loop ended early: where it stood then. -/
structure PullFailure (δ : Type) where
  error : PullError
  state : PullState δ

/-- `item.ts || op.ts` -/
def remoteTs (item : SyncRow δ) (op : Op) : Int := if item.ts ≠ 0 then item.ts else op.ts

/-- The outbox after an item was opened: the loop drops by the logical key of its operation. -/
def dropForItem (box : List Change) (item : SyncRow δ) (op : Op) : List Change :=
  if logicalKeyOfOp op = "" then box
  else dropOutboxIfRemoteNewer box (logicalKeyOfOp op) (remoteTs item op)

def processItem (env : PullEnv δ) (st : PullState δ) (item : SyncRow δ) :
    Except (PullFailure δ) (PullState δ) :=
  let after := max st.after item.seq
  match env.openItem item with
  | none => .ok { st with after, seen := st.seen ++ [(item, .undecryptable)] }
  | some op =>
    let dev := { st.dev with outbox := dropForItem st.dev.outbox item op }
    if shouldSkipOwnOrigin op dev.origin then
      .ok { st with dev, after, seen := st.seen ++ [(item, .ownOrigin)] }
    else
      match applyOp env dev st.syncMeta op with
      | .error e =>
        .error ⟨.storage e, { st with dev, after, seen := st.seen ++ [(item, .failed)] }⟩
      | .ok (dev, syncMeta, true) =>
        .ok { st with
          dev, after, syncMeta
          appliedOps := st.appliedOps ++ [op]
          seen := st.seen ++ [(item, .applied)] }
      | .ok (dev, syncMeta, false) =>
        .ok { st with dev, after, syncMeta, seen := st.seen ++ [(item, .outdated)] }

def processItems (env : PullEnv δ) :
    PullState δ → List (SyncRow δ) → Except (PullFailure δ) (PullState δ)
  | st, [] => .ok st
  | st, item :: items =>
    match processItem env st item with
    | .error e => .error e
    | .ok st => processItems env st items

/-- One turn of the loop, after the page has come: the cursor is moved to the last number of the
whole log, whether or not the page reached it. -/
def processPage (env : PullEnv δ) (st : PullState δ) (out : PullOut δ) :
    Except (PullFailure δ) (PullState δ) :=
  match processItems env st out.items with
  | .error e => .error e
  | .ok st => .ok { st with
      after := max st.after out.latestSeq
      more := out.more && !out.items.isEmpty }

/-- One turn of the loop as the environment sees it: whether the engine still runs when the loop
comes back to its head, and what the server answers to the cursor. -/
structure Round (δ : Type) where
  running : Bool
  pull : Nat → Except AccountError (PullOut δ)

def pullLoop (env : PullEnv δ) :
    PullState δ → List (Round δ) → Except (PullFailure δ) (PullState δ)
  | st, [] => if st.more then .error ⟨.waiting, st⟩ else .ok st
  | st, round :: rounds =>
    if !(st.more && round.running) then .ok st
    else
      match round.pull st.after with
      | .error e => .error ⟨.api e, st⟩
      | .ok out =>
        match processPage env st out with
        | .error e => .error e
        | .ok st => pullLoop env st rounds

def PullState.start (d : Device) : PullState δ := ⟨d, d.lastSeq, d.syncMeta, [], true, []⟩

/-- The contact names that the applied messages bring. -/
def upsertInbound (now : Int) (contacts : Json) (op : Op) : Json :=
  match op.body with
  | .msg peerId _ (some message) =>
    (upsertContactNameFromIncomingMessage contacts peerId message now).getD contacts
  | _ => contacts

/-- What `pullRemote` writes when its loop has ended. -/
def finishPull (env : PullEnv δ) (st : PullState δ) : Device :=
  let d := { st.dev with syncMeta := st.syncMeta, lastSeq := st.after }
  let contacts := (d.store.get? "contacts").getD (.arr [])
  let next := st.appliedOps.foldl (upsertInbound env.now) contacts
  if next = contacts then d else { d with store := d.store.set "contacts" next }

/-- The device after a pull, what became of every item, and the error it ended with. -/
structure PullResult (δ : Type) where
  dev : Device
  seen : List (SyncRow δ × Outcome)
  error : Option PullError

def pullRemote (env : PullEnv δ) (d : Device) (rounds : List (Round δ)) : PullResult δ :=
  match pullLoop env (.start d) rounds with
  | .error e => ⟨e.state.dev, e.state.seen, some e.error⟩
  | .ok st => ⟨finishPull env st, st.seen, none⟩

/-- Where the loop stands, whether or not it has failed. -/
@[simp] def stateOf : Except (PullFailure δ) (PullState δ) → PullState δ
  | .ok st => st
  | .error e => e.state

/-! ## The loop turn by turn -/

variable {env : PullEnv δ} {st st' : PullState δ} {item : SyncRow δ} {items : List (SyncRow δ)}

theorem applyOp_frame {d d' : Device} {m m' : SyncMeta} {op : Op} {applied : Bool}
    (h : applyOp env d m op = .ok (d', m', applied)) :
    ∃ store messages, d' = { d with store, messages } := by
  simp only [applyOp, bind, Except.bind, pure, Except.pure] at h
  split at h
  · split at h
    · cases h; exact ⟨_, _, rfl⟩
    split at h <;> cases h <;> exact ⟨_, _, rfl⟩
  · split at h
    · cases h; exact ⟨_, _, rfl⟩
    split at h
    · cases h; exact ⟨_, _, rfl⟩
    split at h <;> cases h <;> exact ⟨_, _, rfl⟩
  · split at h
    · cases h; exact ⟨_, _, rfl⟩
    split at h <;> cases h
    exact ⟨_, _, rfl⟩
  · split at h
    · cases h; exact ⟨_, _, rfl⟩
    split at h
    · cases h; exact ⟨_, _, rfl⟩
    split at h <;> cases h
    exact ⟨_, _, rfl⟩
  · split at h
    · cases h; exact ⟨_, _, rfl⟩
    split at h
    · cases h; exact ⟨_, _, rfl⟩
    split at h
    · cases h
    split at h
    · split at h <;> cases h
      exact ⟨_, _, rfl⟩
    · cases h; exact ⟨_, _, rfl⟩
  · cases h; exact ⟨_, _, rfl⟩
  · cases h; exact ⟨_, _, rfl⟩

@[simp] theorem finishPull_lastSeq : (finishPull env st).lastSeq = st.after := by
  simp only [finishPull]
  split <;> rfl

@[simp] theorem finishPull_outbox : (finishPull env st).outbox = st.dev.outbox := by
  simp only [finishPull]
  split <;> rfl

theorem processItem_ok (h : processItem env st item = .ok st') :
    st'.after = max st.after item.seq ∧ (∃ o, st'.seen = st.seen ++ [(item, o)]) ∧
      st'.more = st.more := by
  simp only [processItem] at h
  split at h
  · cases h; exact ⟨rfl, ⟨_, rfl⟩, rfl⟩
  split at h
  · cases h; exact ⟨rfl, ⟨_, rfl⟩, rfl⟩
  split at h <;> cases h <;> exact ⟨rfl, ⟨_, rfl⟩, rfl⟩

/-- The cursor after the items of a page. -/
def lastOf (after : Nat) (items : List (SyncRow δ)) : Nat :=
  items.foldl (fun n item => max n item.seq) after

theorem lastOf_le {after n : Nat} :
    lastOf after items ≤ n ↔ after ≤ n ∧ ∀ item ∈ items, item.seq ≤ n := by
  induction items generalizing after with
  | nil => simp [lastOf]
  | cons item items ih =>
    have : lastOf after (item :: items) = lastOf (max after item.seq) items := rfl
    rw [this, ih, Nat.max_le, forall_mem_cons, and_assoc]

theorem processItems_ok (h : processItems env st items = .ok st') :
    st'.after = lastOf st.after items ∧ st'.seen.map (·.1) = st.seen.map (·.1) ++ items ∧
      st'.more = st.more := by
  induction items generalizing st with
  | nil => cases h; simp [lastOf]
  | cons item items ih =>
    simp only [processItems] at h
    split at h
    · cases h
    next st₁ hst₁ =>
    obtain ⟨hafter, ⟨o, hseen⟩, hmore⟩ := processItem_ok hst₁
    obtain ⟨hafter', hseen', hmore'⟩ := ih h
    refine ⟨?_, by simp [hseen', hseen], hmore'.trans hmore⟩
    rw [hafter', hafter]; rfl

/-! ## What cannot be decrypted -/

/-- Every item so far was decrypted. -/
def PullState.Opened (st : PullState δ) : Prop := ∀ p ∈ st.seen, p.2 ≠ .undecryptable

theorem processItem_opened (hs : st.Opened) (h : env.openItem item ≠ none) :
    (stateOf (processItem env st item)).Opened := by
  have hsnoc : ∀ o, o ≠ .undecryptable → ∀ p ∈ st.seen ++ [(item, o)], p.2 ≠ .undecryptable := by
    intro o ho
    rw [forall_mem_append]
    exact ⟨hs, by simpa using ho⟩
  simp only [processItem]
  split
  · next hnone => exact absurd hnone h
  split
  · exact hsnoc _ nofun
  split <;> exact hsnoc _ nofun

theorem processItems_opened (hs : st.Opened) (h : ∀ item ∈ items, env.openItem item ≠ none) :
    (stateOf (processItems env st items)).Opened := by
  induction items generalizing st with
  | nil => exact hs
  | cons item items ih =>
    have hitem := processItem_opened hs (h item (mem_cons_self ..))
    simp only [processItems]
    split
    · next he => rwa [he] at hitem
    · next st₁ hst₁ =>
      rw [hst₁] at hitem
      exact ih hitem fun item hi => h item (mem_cons_of_mem _ hi)

theorem pullRemote_opened {d : Device} {rounds : List (Round δ)}
    (h : ∀ r ∈ rounds, ∀ after out, r.pull after = .ok out →
      ∀ item ∈ out.items, env.openItem item ≠ none) :
    ∀ p ∈ (pullRemote env d rounds).seen, p.2 ≠ .undecryptable := by
  have hloop : ∀ st : PullState δ, st.Opened → (stateOf (pullLoop env st rounds)).Opened := by
    induction rounds with
    | nil =>
      intro st hs
      simp only [pullLoop]
      split <;> exact hs
    | cons r rounds ih =>
      intro st hs
      simp only [pullLoop]
      split
      · exact hs
      split
      · exact hs
      next out hout =>
      have hpage := processItems_opened hs (h r (mem_cons_self ..) _ _ hout)
      simp only [processPage]
      cases hst : processItems env st out.items with
      | error e => rwa [hst] at hpage
      | ok st₁ =>
        rw [hst] at hpage
        exact ih (fun r hr => h r (mem_cons_of_mem _ hr)) _ hpage
  have hend := hloop (.start d) nofun
  simp only [pullRemote]
  split
  · next he => rwa [he] at hend
  · next hst => rwa [hst] at hend

end Bluetalk.CloudAccount

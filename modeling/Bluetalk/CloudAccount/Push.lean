import Bluetalk.CloudAccount.LocalWrites

/-!
# Pushing the outbox

The parts of `pushOutbox` of `src/renderer/cloudAccount/syncEngine.js` between its awaits: what is
built and sealed for a change, what still fits into a request, and what the metadata keeps of a
change that was sent. The encryption of an item is a parameter.
-/

open List

namespace Bluetalk.CloudAccount
open Storage Relay

/-- `PUSH_BODY_SAFETY` -/
def pushBodySafety : Nat := 4096

/-- `buildOp(change, origin)`, where the history holds the messages `findMessage` finds. -/
def buildOp (d : Device) (findMessage : String → String → Option Message) (now : Int)
    (change : Change) : Option Op :=
  let ts := if change.ts ≠ 0 then change.ts else now
  match change.body with
  | .storeEntry key id none => some ⟨ts, d.origin, .storeEntry key id none⟩
  | .storeEntry key id (some _) =>
    (d.entry key id).map fun value => ⟨ts, d.origin, .storeEntry key id (some value)⟩
  | .store key => some ⟨ts, d.origin, .store key ((d.store.get? key).getD .null)⟩
  | .chatDel peerId => some ⟨ts, d.origin, .chatDel peerId⟩
  | .msgDel peerId messageId => some ⟨ts, d.origin, .msgDel peerId messageId⟩
  | .msg peerId messageId message =>
    (message <|> findMessage peerId messageId).map fun message =>
      ⟨0, d.origin, .msg peerId "" (some (prepareMessageForSync message))⟩

section
variable {δ : Type} [Blob δ]

/-- `jsonBytes(item)`: neither text needs an escape. -/
def itemBytes (item : PushItem δ) : Nat := 20 + item.key.utf8ByteSize + Blob.len item.data

/-- `jsonBytes({ items })` -/
def bodyBytes (items : List (PushItem δ)) : Nat :=
  12 + (items.map itemBytes).sum + (items.length - 1)

/-- The operation without the file of its message, if it has one. -/
def withoutFile (op : Op) : Option Op :=
  match op.body with
  | .msg peerId messageId (some message) =>
    if (message.field "fileData").truthy then
      some { op with body := .msg peerId messageId (some (stripMessageFileData message)) }
    else none
  | _ => none

/-- `sealWithinLimit(live, { logicalKey, op })`, where `sealItem` is `sealSyncItem` -/
def sealWithinLimit (sealItem : String → Op → PushItem δ) (logicalKey : String) (op : Op) :
    Option (PushItem δ) :=
  if itemBytes (sealItem logicalKey op) ≤ pushItemMaxBytes then some (sealItem logicalKey op)
  else
    match withoutFile op with
    | none => none
    | some op =>
      if itemBytes (sealItem logicalKey op) ≤ pushItemMaxBytes then some (sealItem logicalKey op)
      else none

/-- The item still fits into the request. -/
def fits (sealed : List (PushItem δ)) (item : PushItem δ) : Bool :=
  bodyBytes (sealed ++ [item]) ≤ pushBodyMaxBytes - pushBodySafety

/-- A change on its way, and the operation built for it. -/
structure SentChange (δ : Type) where
  change : Change
  op : Op
  item : PushItem δ

end

/-- What `pushOutbox` takes for the value of an entry it has sent: the live one. -/
def bookedValue (d : Device) (key id : String) (value : Json) : Json :=
  match d.entry key id with
  | some v => if v = .null then value else v
  | none => value

/-- The metadata after the bookkeeping for a change that was sent. -/
def book (d : Device) (m : SyncMeta) (change : Change) : SyncMeta :=
  match change.body with
  | .storeEntry key id patch =>
    appliedMetaAfterOp m ⟨change.ts, "", .storeEntry key id (patch.map (bookedValue d key id))⟩
  | _ => m

end Bluetalk.CloudAccount

/-!
## One request of a push

One turn of the loop of `pushOutbox` of `src/renderer/cloudAccount/syncEngine.js` on a device that
nothing else happens on, against the relay: the batch is filled, sent, taken off the outbox and
booked.
-/

namespace Bluetalk.CloudAccount
open Storage Relay

variable {δ : Type} [Blob δ]

/-- `memoryOutbox.removeSent(sent)` -/
def Device.removeSent (d : Device) (sent : List Change) : Device :=
  { d with outbox := removeSentFromOutbox d.outbox sent }

/-- The `for` over the snapshot of the outbox. -/
def fillBatch (sealItem : String → Op → PushItem δ) (findMessage : String → String → Option Message)
    (now : Int) : Device → List Change → List (SentChange δ) → Device × List (SentChange δ)
  | d, [], sent => (d, sent)
  | d, c :: todo, sent =>
    if pushBatch ≤ sent.length then (d, sent)
    else
      match buildOp d findMessage now c with
      | none => fillBatch sealItem findMessage now (d.removeSent [c]) todo sent
      | some op =>
        match sealWithinLimit sealItem (logicalKeyOf c) op with
        | none => fillBatch sealItem findMessage now (d.removeSent [c]) todo sent
        | some item =>
          if fits (sent.map (·.item)) item then
            fillBatch sealItem findMessage now d todo (sent ++ [⟨c, op, item⟩])
          else if sent.isEmpty then
            fillBatch sealItem findMessage now (d.removeSent [c]) todo sent
          else (d, sent)

/-- The items one by one, as long as the relay takes them or finds them too large. -/
def pushSingly (a : Nat) (quota now : Int) :
    Db δ → Device → List (SentChange δ) → Db δ × Device × Option AccountError
  | db, d, [] => (db, d, none)
  | db, d, x :: rest =>
    match pushSql db a [x.item] quota now with
    | .ok (_, db) => pushSingly a quota now db (d.removeSent [x.change]) rest
    | .error .tooLarge => pushSingly a quota now db (d.removeSent [x.change]) rest
    | .error e => (db, d, some e)

def pushPrepared (a : Nat) (quota now : Int) (db : Db δ) (d : Device) (sent : List (SentChange δ)) :
    Db δ × Device × Option AccountError :=
  match pushSql db a (sent.map (·.item)) quota now with
  | .ok (_, db) => (db, d.removeSent (sent.map (·.change)), none)
  | .error .tooLarge =>
    match sent with
    | [x] => (db, d.removeSent [x.change], none)
    | sent => pushSingly a quota now db d sent
  | .error e => (db, d, some e)

/-- The database and the device after the turn; a request that fails ends it before the
bookkeeping. -/
def pushTurn (sealItem : String → Op → PushItem δ) (findMessage : String → String → Option Message)
    (a : Nat) (quota serverNow now : Int) (db : Db δ) (d : Device) : Db δ × Device :=
  let (d, sent) := fillBatch sealItem findMessage now d d.outbox []
  if sent.isEmpty then (db, d)
  else
    match pushPrepared a quota serverNow db d sent with
    | (db, d, some _) => (db, d)
    | (db, d, none) =>
      (db, { d with syncMeta := sent.foldl (fun m x => book d m x.change) d.syncMeta })

/-! ### Batches -/

variable {sealItem : String → Op → PushItem δ} {findMessage : String → String → Option Message}
  {now : Int} {d : Device} {todo : List Change} {sent : List (SentChange δ)}

/-- What the batch holds of a change: its operation, sealed. -/
def Sealed (sealItem : String → Op → PushItem δ) (findMessage : String → String → Option Message)
    (now : Int) (d : Device) (x : SentChange δ) : Prop :=
  buildOp d findMessage now x.change = some x.op ∧ x.item = sealItem (logicalKeyOf x.change) x.op

/-- An operation is built for the change, and its item is within the limit of the relay. -/
def Sendable (sealItem : String → Op → PushItem δ) (findMessage : String → String → Option Message)
    (now : Int) (d : Device) (c : Change) : Prop :=
  ∃ op, buildOp d findMessage now c = some op ∧
    itemBytes (sealItem (logicalKeyOf c) op) ≤ pushItemMaxBytes

variable (sent) in
theorem fillBatch_sendable (h : ∀ c ∈ todo, Sendable sealItem findMessage now d c) :
    ∃ batch, fillBatch sealItem findMessage now d todo sent = (d, sent ++ batch) ∧
      (batch.map (·.change)).Sublist todo ∧ (∀ x ∈ batch, Sealed sealItem findMessage now d x) ∧
      ∀ x ∈ batch, itemBytes x.item ≤ pushItemMaxBytes := by
  have hstop : ∃ batch, (d, sent) = (d, sent ++ batch) ∧ (batch.map (·.change)).Sublist todo ∧
      (∀ x ∈ batch, Sealed sealItem findMessage now d x) ∧
      ∀ x ∈ batch, itemBytes x.item ≤ pushItemMaxBytes :=
    ⟨[], by simp, nil_sublist _, by simp, by simp⟩
  induction todo generalizing sent with
  | nil => exact hstop
  | cons c todo ih =>
    obtain ⟨op, hop, hsize⟩ := h c (mem_cons_self ..)
    have hseal : sealWithinLimit sealItem (logicalKeyOf c) op =
        some (sealItem (logicalKeyOf c) op) := if_pos hsize
    simp only [fillBatch, hop, hseal]
    split
    · exact hstop
    split
    · obtain ⟨batch, hfill, hsub, hsealed, hle⟩ :=
        ih (sent ++ [⟨c, op, sealItem (logicalKeyOf c) op⟩])
          (fun c hc => h c (mem_cons_of_mem _ hc))
          ⟨[], by simp, nil_sublist _, by simp, by simp⟩
      refine ⟨⟨c, op, sealItem (logicalKeyOf c) op⟩ :: batch, ?_, ?_, ?_, ?_⟩
      · rw [hfill, append_assoc]; rfl
      · exact hsub.cons_cons c
      · exact forall_mem_cons.mpr ⟨⟨hop, rfl⟩, hsealed⟩
      · exact forall_mem_cons.mpr ⟨hsize, hle⟩
    next hfits =>
    split
    · -- an item within the limit fits into an empty request
      next hempty =>
      obtain rfl : sent = [] := isEmpty_iff.mp hempty
      refine absurd ?_ hfits
      simp only [fits, bodyBytes, map_nil, nil_append, map_cons, sum_cons,
        sum_nil, length_cons, length_nil, decide_eq_true_eq]
      have : pushItemMaxBytes + 12 ≤ pushBodyMaxBytes - pushBodySafety := by decide
      omega
    · exact hstop

theorem pushSql_ne_tooLarge (db : Db δ) (a : Nat) {items : List (PushItem δ)} (quota now : Int)
    (h : ∀ x ∈ items, itemBytes x ≤ pushItemMaxBytes) :
    pushSql db a items quota now ≠ .error .tooLarge := by
  have hcheck : checkItems items ≠ .error .tooLarge := by
    induction items with
    | nil => simp [checkItems]
    | cons x items ih =>
      have hx := h x (mem_cons_self ..)
      have : ¬syncItemMaxBytes < Blob.len x.data := by
        simp only [itemBytes] at hx
        have : pushItemMaxBytes = syncItemMaxBytes := rfl
        omega
      simp only [checkItems, this, if_false]
      split
      · simp
      · exact ih fun y hy => h y (mem_cons_of_mem _ hy)
  have hpush : ∀ st, pushItems a quota now st items ≠ .error .tooLarge := by
    clear h hcheck
    induction items with
    | nil => exact nofun
    | cons x items ih =>
      intro st
      rw [pushItems_cons]
      split
      · next e he =>
        simp only [pushItem] at he
        split at he
        · cases he; simp
        · split at he
          · cases he; simp
          · cases he
      · exact ih _
  simp only [pushSql]
  split
  · simp
  split
  · next e he => intro h; cases h; exact hcheck he
  split
  · simp
  split
  · next e he => intro h; cases h; exact hpush _ he
  · simp

theorem pushTurn_sendable (a : Nat) (quota serverNow : Int) (db : Db δ)
    (h : ∀ c ∈ d.outbox, Sendable sealItem findMessage now d c) :
    pushTurn sealItem findMessage a quota serverNow now db d = (db, d) ∨
    ∃ (sent : List (SentChange δ)) (out : PushOut) (db' : Db δ),
      (sent.map (·.change)).Sublist d.outbox ∧
      (∀ x ∈ sent, Sealed sealItem findMessage now d x) ∧
      pushSql db a (sent.map (·.item)) quota serverNow = .ok (out, db') ∧
      pushTurn sealItem findMessage a quota serverNow now db d =
        (db', { d.removeSent (sent.map (·.change)) with
          syncMeta := sent.foldl (fun m x => book d m x.change) d.syncMeta }) := by
  obtain ⟨sent, hfill, hsub, hsealed, hle⟩ := fillBatch_sendable [] h
  simp only [pushTurn, hfill, nil_append]
  split
  · exact .inl rfl
  have hsize : ∀ x ∈ sent.map (·.item), itemBytes x ≤ pushItemMaxBytes := by simpa using hle
  have hlarge := pushSql_ne_tooLarge db a quota serverNow hsize
  simp only [pushPrepared]
  cases hpush : pushSql db a (sent.map (·.item)) quota serverNow with
  | ok x => exact .inr ⟨sent, x.1, x.2, hsub, hsealed, hpush, rfl⟩
  | error e =>
    cases e with
    | tooLarge => exact absurd hpush hlarge
    | _ => exact .inl rfl

end Bluetalk.CloudAccount

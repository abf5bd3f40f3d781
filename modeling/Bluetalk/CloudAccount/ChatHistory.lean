import Bluetalk.CloudAccount.PullRemote
import Bluetalk.Theory.Run

/-!
# Deleted chats

What the operations of the log do to the history of a conversation. A chat deletion empties the
conversation and leaves its timestamp in `chatDel`, where the admission of messages reads it; an
admitted message that is newer takes it away again. `History` keeps, for the statements only, every
deletion that was applied.
-/

open List

namespace Bluetalk.CloudAccount
open Storage Relay

variable {δ : Type} {env : PullEnv δ} {d d' : Device} {m m' : SyncMeta} {op : Op} {applied : Bool}
  {peerId messageId origin : String} {ts : Int} {message : Message}

/-! ## One operation -/

/-- The timestamp that `appliedMetaAfterOp` holds against the chat deletion. -/
def clearingTs (ts : Int) (message : Message) : Int :=
  if (message.field "timestamp").toNumber ≠ 0 then (message.field "timestamp").toNumber else ts

theorem appliedMetaAfterOp_msg (p : String) :
    (appliedMetaAfterOp m ⟨ts, origin, .msg peerId messageId (some message)⟩).tombstone p =
      if p = peerId ∧ peerId ≠ "" ∧ m.tombstone peerId < clearingTs ts message then 0
      else m.tombstone p := by
  change (if peerId = "" then m
    else if m.tombstone peerId < clearingTs ts message then
      { m with chatDel := m.chatDel.erase peerId } else m).tombstone p = _
  by_cases hp : peerId = ""
  · simp [hp]
  by_cases hlt : m.tombstone peerId < clearingTs ts message
  · simp only [hp, hlt, if_false, if_true, ne_eq, not_false_iff, and_true]
    by_cases h : p = peerId <;> simp [h, SyncMeta.tombstone]
  · simp [hp, hlt]

theorem appliedMetaAfterOp_chatDel (p : String) (hp : peerId ≠ "") :
    (appliedMetaAfterOp m ⟨ts, origin, .chatDel peerId⟩).tombstone p =
      if p = peerId then max ts (m.tombstone peerId) else m.tombstone p := by
  simp only [appliedMetaAfterOp, hp, if_false]
  by_cases hle : m.tombstone peerId ≤ ts
  · by_cases h : p = peerId
    · simp only [hle, h, if_true, max_eq_left hle]
      simp [SyncMeta.tombstone]
    · simp only [hle, h, if_true, if_false]
      simp [h, SyncMeta.tombstone]
  · by_cases h : p = peerId
    · simp only [hle, h, if_true, if_false, max_eq_right (not_le.mp hle).le]
    · simp [hle, h]

theorem applyOp_chatDel (hp : peerId ≠ "")
    (h : applyOp env d m ⟨ts, origin, .chatDel peerId⟩ = .ok (d', m', applied)) :
    ∃ key, d.backend.peerKey peerId = .ok key ∧
      d' = { d with messages := d.messages.removeChat key } ∧
      m' = appliedMetaAfterOp m ⟨ts, origin, .chatDel peerId⟩ ∧ applied = true := by
  simp only [applyOp, hp, if_false, bind, Except.bind, pure, Except.pure,
    Backend.deleteChat_eq] at h
  cases hkey : d.backend.peerKey peerId with
  | error e => simp [hkey, Except.map] at h
  | ok key =>
    simp only [hkey, Except.map] at h
    cases h
    exact ⟨key, rfl, rfl, rfl, rfl⟩

theorem applyOp_msg_refused
    (h : shouldApplyMessage (messageTs message) (m.tombstone peerId) = false) :
    applyOp env d m ⟨ts, origin, .msg peerId messageId (some message)⟩ = .ok (d, m, false) := by
  simp only [applyOp, h, bind, Except.bind, pure, Except.pure]
  split <;> rfl

theorem applyOp_msg_admitted (hp : peerId ≠ "")
    (hadm : shouldApplyMessage (messageTs message) (m.tombstone peerId) = true)
    (h : applyOp env d m ⟨ts, origin, .msg peerId messageId (some message)⟩ =
      .ok (d', m', applied)) :
    m' = appliedMetaAfterOp m ⟨ts, origin, .msg peerId messageId (some message)⟩ ∧
      applied = true := by
  simp only [applyOp, hp, hadm, if_false, bind, Except.bind, pure, Except.pure] at h
  rw [if_neg (by decide)] at h
  split at h
  · cases h
  split at h
  · split at h <;> cases h
    exact ⟨rfl, rfl⟩
  · cases h; exact ⟨rfl, rfl⟩

theorem applyStoreOpEntry_chatDel {box : List Change} {key : String}
    {entries : List (String × Json)} {acc : Json × SyncMeta × Bool} :
    (entries.foldl (applyStoreOpEntry box key ts origin) acc).2.1.chatDel = acc.2.1.chatDel := by
  induction entries generalizing acc with
  | nil => rfl
  | cons entry entries ih =>
    rw [foldl_cons, ih]
    simp only [applyStoreOpEntry]
    split
    · simp only [appliedMetaAfterOp]; split <;> rfl
    · rfl

theorem applyOp_chatDel_eq (h : applyOp env d m op = .ok (d', m', applied))
    (hmsg : ∀ p i x, op.body ≠ .msg p i (some x)) (hdel : ∀ p, op.body ≠ .chatDel p) :
    m'.chatDel = m.chatDel := by
  obtain ⟨ts, origin, body⟩ := op
  cases body with
  | storeEntry key id patch =>
    simp only [applyOp, pure, Except.pure] at h
    split at h
    · cases h; rfl
    split at h
    · cases h; rfl
    · cases h; simp only [appliedMetaAfterOp]; split <;> rfl
  | store key value =>
    simp only [applyOp, pure, Except.pure] at h
    split at h
    · cases h; rfl
    split at h
    · cases h; rfl
    split at h
    · cases h
      simp only [appliedMetaAfterOp]
      split <;> exact applyStoreOpEntry_chatDel
    · cases h; exact applyStoreOpEntry_chatDel
  | chatDel peerId => exact absurd rfl (hdel peerId)
  | msgDel peerId messageId =>
    simp only [applyOp, bind, Except.bind, pure, Except.pure] at h
    split at h
    · cases h; rfl
    split at h
    · cases h; rfl
    split at h <;> cases h
    rfl
  | msg peerId messageId message =>
    cases message with
    | none => cases h; rfl
    | some message => exact absurd rfl (hmsg peerId messageId message)
  | unknown => cases h; rfl

/-- A message with a timestamp and nothing else. -/
def messageAt (t : Int) : Message := JsObject.empty.set "timestamp" (.num t)

@[simp] theorem messageTs_messageAt (t : Int) : messageTs (messageAt t) = t := by
  have hts : (messageAt t).field "ts" = .null := rfl
  have htimestamp : (messageAt t).field "timestamp" = .num t := rfl
  simp only [messageTs, hts, htimestamp, Json.toNumber]
  split <;> omega

/-! ## Runs of operations -/

/-- A device, the metadata of the sync, and the chat deletions applied so far. -/
structure History where
  dev : Device
  syncMeta : SyncMeta
  dels : List (String × Int)
  deriving DecidableEq

/-- The chat deletion that an operation applied. -/
def deletionOf (op : Op) (applied : Bool) : List (String × Int) :=
  match op.body with
  | .chatDel peerId => if applied then [(peerId, op.ts)] else []
  | _ => []

def historyStep (env : PullEnv δ) (s : History) (op : Op) : Option History :=
  match applyOp env s.dev s.syncMeta op with
  | .error _ => none
  | .ok (dev, syncMeta, applied) => some ⟨dev, syncMeta, s.dels ++ deletionOf op applied⟩

/-- A message that is not newer than a deletion of its chat changes nothing. -/
def RefusesDeleted (env : PullEnv δ) (s : History) : Prop :=
  ∀ x ∈ s.dels, ∀ ts origin messageId message, messageTs message ≤ x.2 →
    applyOp env s.dev s.syncMeta ⟨ts, origin, .msg x.1 messageId (some message)⟩ =
      .ok (s.dev, s.syncMeta, false)

/-- The operation keeps every deletion in mind: it is no message newer than the tombstone of its
peer, and a chat deletion has a timestamp. -/
def KeepsTombstones (s : History) (op : Op) : Prop :=
  match op.body with
  | .msg peerId _ (some message) =>
    ¬(0 < s.syncMeta.tombstone peerId ∧ s.syncMeta.tombstone peerId < messageTs message ∧
      s.syncMeta.tombstone peerId < clearingTs op.ts message)
  | .chatDel peerId => peerId = "" ∨ 0 < op.ts ∨ 0 < s.syncMeta.tombstone peerId
  | _ => True

namespace History

/-- The tombstones stand for deletions that were applied. -/
structure Recorded (s : History) : Prop where
  tombstone : ∀ p, 0 < s.syncMeta.tombstone p → (p, s.syncMeta.tombstone p) ∈ s.dels
  peerId : ∀ x ∈ s.dels, x.1 ≠ ""

/-- The tombstones cover the deletions that were applied. -/
def Covered (s : History) : Prop :=
  ∀ x ∈ s.dels, 0 < s.syncMeta.tombstone x.1 ∧ x.2 ≤ s.syncMeta.tombstone x.1

variable {s s' : History}

theorem Recorded.refusesDeleted_iff (H : s.Recorded) : RefusesDeleted env s ↔ s.Covered := by
  constructor
  · -- the message with the timestamp of the deletion itself is refused
    rintro h ⟨p, t⟩ hx
    have h := h _ hx 0 "" "" (messageAt t) (messageTs_messageAt t).le
    by_contra hcov
    have hadm : shouldApplyMessage (messageTs (messageAt t)) (s.syncMeta.tombstone p) = true := by
      simp only [shouldApplyMessage, messageTs_messageAt, Bool.or_eq_true, decide_eq_true_eq]
      simp only at hcov
      omega
    exact absurd (applyOp_msg_admitted (H.peerId _ hx) hadm h).2 (by simp)
  · rintro h ⟨p, t⟩ hx ts origin messageId message hle
    obtain ⟨hpos, hcov⟩ := h _ hx
    refine applyOp_msg_refused ?_
    simp only [shouldApplyMessage, Bool.or_eq_false_iff, decide_eq_false_iff_not] at hle ⊢
    simp only at hpos hcov
    omega

theorem Recorded.congr (H : s.Recorded) (hdels : s'.dels = s.dels)
    (hm : ∀ p, s'.syncMeta.tombstone p = s.syncMeta.tombstone p) :
    s'.Recorded ∧ (s.Covered → s'.Covered) := by
  refine ⟨⟨fun p => ?_, ?_⟩, fun hcov x hx => ?_⟩
  · rw [hm, hdels]; exact H.tombstone p
  · rw [hdels]; exact H.peerId
  · rw [hm]; exact hcov x (hdels ▸ hx)

theorem Recorded.msg (H : s.Recorded)
    (h : historyStep env s ⟨ts, origin, .msg peerId messageId (some message)⟩ = some s') :
    s'.Recorded ∧ (s.Covered → (s'.Covered ↔
      KeepsTombstones s ⟨ts, origin, .msg peerId messageId (some message)⟩)) := by
  have hrest : s' = s → ¬(0 < s.syncMeta.tombstone peerId ∧
      s.syncMeta.tombstone peerId < messageTs message) →
      s'.Recorded ∧ (s.Covered → (s'.Covered ↔
        KeepsTombstones s ⟨ts, origin, .msg peerId messageId (some message)⟩)) := by
    rintro rfl hnot
    exact ⟨H, fun hcov => ⟨fun _ hc => hnot ⟨hc.1, hc.2.1⟩, fun _ => hcov⟩⟩
  simp only [historyStep] at h
  by_cases hp : peerId = ""
  · subst hp
    cases h
    refine hrest (by simp [deletionOf]) fun hc => ?_
    exact H.peerId _ (H.tombstone _ hc.1) rfl
  cases hadm : shouldApplyMessage (messageTs message) (s.syncMeta.tombstone peerId) with
  | false =>
    rw [applyOp_msg_refused hadm] at h
    cases h
    refine hrest (by simp [deletionOf]) fun hc => ?_
    simp only [shouldApplyMessage, Bool.or_eq_false_iff, decide_eq_false_iff_not] at hadm
    omega
  | true =>
    split at h
    · cases h
    next dev syncMeta applied happly =>
    cases h
    obtain ⟨rfl, -⟩ := applyOp_msg_admitted hp hadm happly
    simp only [shouldApplyMessage, Bool.or_eq_true, decide_eq_true_eq] at hadm
    simp only [deletionOf, append_nil]
    refine ⟨⟨fun q hq => ?_, H.peerId⟩, fun hcov => ⟨fun hcov' hc => ?_, fun hkeeps x hx => ?_⟩⟩
    · simp only [appliedMetaAfterOp_msg] at hq ⊢
      split at hq
      · omega
      · next hno => rw [if_neg hno]; exact H.tombstone q hq
    · -- the tombstone that is cleared stood for a deletion
      have hpos := (hcov' _ (H.tombstone peerId hc.1)).1
      simp only [appliedMetaAfterOp_msg, ne_eq, hp, not_false_iff, hc.2.2, and_self, if_true] at hpos
      omega
    · obtain ⟨hpos, hle⟩ := hcov x hx
      simp only [appliedMetaAfterOp_msg]
      split
      · next hclear =>
        obtain ⟨hx, -, hclear⟩ := hclear
        rw [hx] at hpos
        exact absurd ⟨hpos, hadm.resolve_left (by omega), hclear⟩ hkeeps
      · exact ⟨hpos, hle⟩

theorem Recorded.chatDel (H : s.Recorded)
    (h : historyStep env s ⟨ts, origin, .chatDel peerId⟩ = some s') :
    s'.Recorded ∧ (s.Covered → (s'.Covered ↔ KeepsTombstones s ⟨ts, origin, .chatDel peerId⟩)) := by
  simp only [historyStep] at h
  by_cases hp : peerId = ""
  · subst hp
    cases h
    simp only [deletionOf, Bool.false_eq_true, if_false, append_nil]
    exact ⟨H, fun hcov => ⟨fun _ => .inl rfl, fun _ => hcov⟩⟩
  split at h
  · cases h
  next dev syncMeta applied happly =>
  cases h
  obtain ⟨key, -, -, rfl, rfl⟩ := applyOp_chatDel hp happly
  simp only [deletionOf, if_true, KeepsTombstones, hp, false_or]
  refine ⟨⟨fun q hq => ?_, fun x hx => ?_⟩, fun hcov => ⟨fun hcov' => ?_, fun hkeeps x hx => ?_⟩⟩
  · simp only [appliedMetaAfterOp_chatDel q hp] at hq ⊢
    split at hq
    · next hq' =>
      subst hq'
      rw [if_pos rfl, mem_append, mem_singleton, Prod.mk.injEq]
      rcases le_total (s.syncMeta.tombstone q) ts with hle | hle
      · exact .inr ⟨rfl, max_eq_left hle⟩
      · rw [max_eq_right hle] at hq ⊢
        exact .inl (H.tombstone q hq)
    · next hq' => rw [if_neg hq']; exact mem_append_left _ (H.tombstone q hq)
  · rcases mem_append.mp hx with hx | hx
    · exact H.peerId x hx
    · rw [mem_singleton.mp hx]; exact hp
  · have hpos := (hcov' (peerId, ts) (by simp)).1
    simp only [appliedMetaAfterOp_chatDel peerId hp, if_true] at hpos
    omega
  · simp only [appliedMetaAfterOp_chatDel x.1 hp]
    rcases mem_append.mp hx with hx | hx
    · have := hcov x hx
      split
      · next hx' => rw [hx'] at this; omega
      · exact this
    · rw [mem_singleton.mp hx, if_pos rfl]
      simp only
      omega

/-- An operation records what it applies, and covers the deletions iff it keeps them in mind. -/
theorem Recorded.step (H : s.Recorded) (h : historyStep env s op = some s') :
    s'.Recorded ∧ (s.Covered → (s'.Covered ↔ KeepsTombstones s op)) := by
  -- what is neither a message nor a chat deletion
  have hother : (∀ p i x, op.body ≠ .msg p i (some x)) → (∀ p, op.body ≠ .chatDel p) →
      s'.Recorded ∧ (s.Covered → s'.Covered) := by
    intro hmsg hdel
    simp only [historyStep] at h
    split at h
    · cases h
    next dev syncMeta applied happly =>
    cases h
    refine H.congr ?_ fun p => ?_
    · simp only [deletionOf, append_nil]
    · simp only [SyncMeta.tombstone, applyOp_chatDel_eq happly hmsg hdel]
  obtain ⟨ts, origin, body⟩ := op
  have hkeep : s'.Recorded ∧ (s.Covered → s'.Covered) →
      s'.Recorded ∧ (s.Covered → (s'.Covered ↔ True)) := fun h => ⟨h.1, fun hc => by simp [h.2 hc]⟩
  cases body with
  | msg peerId messageId message =>
    cases message with
    | none => exact hkeep (hother (by simp) (by simp))
    | some message => exact H.msg h
  | chatDel peerId => exact H.chatDel h
  | storeEntry | store | msgDel | unknown => exact hkeep (hother (by simp) (by simp))

end History

/-- No tombstone but that of a deletion that was applied -/
theorem tombstones_recorded {ops : List Op} :
    Always (historyStep env) History.Recorded ⟨d, emptySyncMeta, []⟩ ops :=
  Run.always (fun H h => (H.step h).1)
    ⟨fun p hp => absurd hp (by simp [SyncMeta.tombstone, emptySyncMeta]), nofun⟩

/-- Along any run of operations from a device without chat deletions, every state refuses the
messages that the deletions applied so far cover exactly when every operation keeps the deletions in
mind. -/
theorem history_refuses_deleted_iff {ops : List Op} {s : History} (hm : m.chatDel = .empty)
    (h : FreeRun (historyStep env) ⟨d, m, []⟩ ops s) :
    Always (historyStep env) (RefusesDeleted env) ⟨d, m, []⟩ ops ↔
      Run (historyStep env) KeepsTombstones ⟨d, m, []⟩ ops s := by
  have H : History.Recorded ⟨d, m, []⟩ :=
    ⟨fun p hp => by simp [SyncMeta.tombstone, hm] at hp, fun x hx => by cases hx⟩
  refine h.always_iff (I := History.Recorded) (fun H h => (H.step h).1) ?_ H (fun x hx => by cases hx)
  intro s op s' H hs hstep
  obtain ⟨H', hcov⟩ := H.step hstep
  rw [H'.refusesDeleted_iff]
  exact hcov (H.refusesDeleted_iff.mp hs)

/-- A message at 50 after the deletion at 100. -/
theorem history_refuses_deleted_late :
    Always (historyStep plainEnv) (RefusesDeleted plainEnv) ⟨.fresh .web "a", emptySyncMeta, []⟩
        [⟨100, "b", .chatDel "p"⟩, ⟨0, "b", .msg "p" "" (some (messageAt 50))⟩] ↔
      Run (historyStep plainEnv) KeepsTombstones ⟨.fresh .web "a", emptySyncMeta, []⟩
        [⟨100, "b", .chatDel "p"⟩, ⟨0, "b", .msg "p" "" (some (messageAt 50))⟩]
        ⟨.fresh .web "a", { emptySyncMeta with chatDel := .ofFields [("p", 100)] }, [("p", 100)]⟩ :=
  history_refuses_deleted_iff rfl (.of_exec (by decide))

/-- The message at 150 clears the tombstone of 100, and the one at 50 is back in the history. -/
theorem history_readmits_deleted :
    ∃ s, FreeRun (historyStep plainEnv) ⟨.fresh .web "a", emptySyncMeta, []⟩
        [⟨100, "b", .chatDel "p"⟩, ⟨0, "b", .msg "p" "" (some (messageAt 150))⟩,
          ⟨0, "b", .msg "p" "" (some (messageAt 50))⟩] s ∧
      ("p", 100) ∈ s.dels ∧ messageAt 50 ∈ (s.dev.messages.chat "p").map (·.value) :=
  ⟨_, .of_exec rfl, by decide, by decide⟩

/-! ## What a chat deletion removes -/

/-- A device with one message in the chat with `p`. -/
def deviceWithMessage (backend : Backend) (ts : Int) : Device :=
  { Device.fresh backend "a" with
    messages := ⟨[⟨1, "p", some "m", "m", ts, messageAt ts⟩], 1⟩ }

end Bluetalk.CloudAccount

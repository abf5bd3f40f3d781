import Bluetalk.Chat.Content
import Bluetalk.Groups.GroupChat
import Bluetalk.Theory.Run

/-!
# The delivery of a direct message

One message that is sent to a contact: its sending and its timer (`sendMessage` of
`src/renderer/app/hooks/useMessaging.js`), the retries when the account is online again, and the
delivery receipts (`src/renderer/app/peerMessageHandler.js`). Each of them patches the status of the message
on its own; the patches of other messages do not touch it.
-/

open List Option

namespace Bluetalk.Chat
open CloudAccount Storage Groups

/-- Who waits for a patch of the message -/
inductive DeliveryOrigin
  | nobody
  | fileData
  | retry
  | receipt
  deriving DecidableEq

inductive Mailbox
  | none
  | stored
  | delivered

/-- What `deliverPeerPayload` returns -/
structure Outcome where
  sent : Bool
  via : Json := .null
  mailbox : Mailbox := .none

/-- Where the continuation of `sendMessage` is -/
inductive Sending
  | ended
  | preparing
  | delivering
  | appending (outcome : Outcome)
  | patching (outcome : Outcome)

inductive Appending
  | none
  | running
  | done
  | failed
  deriving DecidableEq

structure DirectMessage where
  /-- `selfMessageFull`, once it is sent -/
  message : Message
  copies : MessageCopies DeliveryOrigin
  sending : Sending
  append : Appending
  /-- `deliveryTimersRef` has a timer for the message. -/
  timer : Bool
  /-- `cloudStateRef` -/
  isOnline : Bool
  /-- `mailRetryInFlightRef` has the message. -/
  retryInFlight : Bool
  /-- The retry waits for what comes of it. -/
  retrying : Bool
  /-- A receipt has been processed. No step reads it. -/
  received : Bool
  /-- A retry was begun after a receipt. No step reads it. -/
  lateRetry : Bool

inductive DeliveryAct
  | send (message : Message) (localPreviewUrl : Json)
  | prepared (ok : Bool)
  | append (fails : Bool)
  | delivered (outcome : Option Outcome)
  | appended
  | timeout
  | cloud (isOnline : Bool)
  | retried (outcome : Option Outcome)
  | receipt (receivedAt : Json) (now : Int)
  | land (k : Nat) (fails : Bool)

def pendingMessage (m : Message) : Message :=
  JsObject.set (JsObject.set m "from" (.str "self")) "deliveryStatus" (.str "pending")

/-- The data of a file are not loaded. -/
def lightMessage (m : Message) (localPreviewUrl : Json) : Message :=
  if m.field "kind" = .str "file" || m.field "kind" = .str "sticker" then
    pendingMessage (withPatch [("fileData", .null), ("localPreviewUrl", localPreviewUrl)] m)
  else pendingMessage m

namespace DirectMessage

/-- `deferDisk` -/
def isFile (s : DirectMessage) : Bool :=
  s.message.field "kind" = .str "file" || s.message.field "kind" = .str "sticker"

def patch (origin : DeliveryOrigin) (patch : List (String × Json)) (s : DirectMessage) :
    DirectMessage :=
  { s with copies := s.copies.issue origin patch }

def failScheduled (s : DirectMessage) : DirectMessage :=
  { s with sending := .ended }.patch .nobody
    [("deliveryStatus", .str "scheduled"), ("localPreviewUrl", .null)]

/-- The end of the sending: the mailbox has the message, or a receipt is waited for. -/
def settle (o : Outcome) (s : DirectMessage) : DirectMessage :=
  let via := if o.via.truthy then [("via", o.via)] else []
  match o.mailbox with
  | .stored => { s with sending := .ended, timer := false }.patch .nobody (spread via
      [("deliveryStatus", .str "sent"), ("via", .str "cloud"), ("cloudStored", .bool true)])
  | .delivered => { s with sending := .ended, timer := false }.patch .nobody (spread via
      [("deliveryStatus", .str "delivered"), ("via", .str "cloud")])
  | .none =>
    let ended := { s with sending := .ended, timer := true }
    if o.via.truthy then ended.patch .nobody via else ended

/-- The message is loaded as one that the mailbox may take. -/
def isScheduled (m : Message) : Bool :=
  m.field "from" = .str "self" && m.field "kind" = .str "chat" && (m.field "messageId").truthy &&
    m.field "deliveryStatus" = .str "scheduled" && m.field "cloudStored" ≠ .bool true

def isDelivered (m : Message) : Bool := m.field "deliveryStatus" = .str "delivered"

/-- Whether the message is sent again when the account goes online -/
def retries (s : DirectMessage) : Bool := s.copies.loaded.any isScheduled && !s.retryInFlight

def retryPatch (o : Outcome) : List (String × Json) :=
  ("via", orElse o.via (.str "cloud")) ::
    match o.mailbox with
    | .stored => [("deliveryStatus", .str "sent"), ("cloudStored", .bool true)]
    | .delivered => [("deliveryStatus", .str "delivered")]
    | .none => [("deliveryStatus", .str "pending")]

def receiptPatch (receivedAt : Json) (now : Int) : List (String × Json) :=
  let deliveredAt := match receivedAt with
    | .num n => .num n
    | _ => .num now
  [("deliveryStatus", .str "delivered"), ("deliveredAt", deliveredAt)]

/-- Who has waited for a patch goes on. -/
def goOn (s : DirectMessage) : Landed DeliveryOrigin → DirectMessage
  | .stored => s
  | .failed .nobody | .finished .nobody => s
  | .failed .fileData =>
    match s.sending with
    | .patching _ => s.failScheduled
    | _ => s
  | .finished .fileData =>
    match s.sending with
    | .patching o => s.settle o
    | _ => s
  | .failed .retry | .finished .retry => { s with retryInFlight := false }
  | .failed .receipt => s
  | .finished .receipt => { s with received := true }

def step (s : DirectMessage) : DeliveryAct → Option DirectMessage
  | .send message localPreviewUrl =>
    match s.sending, s.append, s.copies.stored, s.copies.loaded with
    | .ended, .none, none, none => some { s with
        message := message
        copies := { s.copies with loaded := some (lightMessage message localPreviewUrl) }
        sending := .preparing }
    | _, _, _, _ => none
  | .prepared ok =>
    match s.sending with
    | .preparing =>
      if ok then
        some { s with sending := .delivering, append := if s.isFile then .none else .running }
      else some s.failScheduled
    | _ => none
  | .append fails =>
    if s.append ≠ .running then none
    else if fails then some { s with append := .failed }
    else some { s with
      append := .done
      copies := { s.copies with stored := s.copies.stored.or (some (pendingMessage s.message)) } }
  | .delivered outcome =>
    match s.sending with
    | .delivering =>
      match outcome with
      | none => some s.failScheduled
      | some o =>
        if s.isFile && !o.sent then some s.failScheduled
        else
          some { s with sending := .appending o, append := if s.isFile then .running else s.append }
    | _ => none
  | .appended =>
    match s.sending, s.append with
    | .appending _, .failed => some s.failScheduled
    | .appending o, .done =>
      if !o.sent then some s.failScheduled
      else if s.isFile && (s.message.field "fileData").truthy then
        some ({ s with sending := .patching o }.patch .fileData
          [("fileData", s.message.field "fileData"), ("localPreviewUrl", .null)])
      else some (s.settle o)
    | _, _ => none
  | .timeout =>
    if s.timer then
      some ({ s with timer := false }.patch .nobody [("deliveryStatus", .str "scheduled")])
    else none
  | .cloud isOnline =>
    let changed := { s with isOnline := isOnline }
    if isOnline && !s.isOnline && s.retries then
      some { changed with
        retryInFlight := true
        retrying := true
        lateRetry := s.lateRetry || s.received }
    else some changed
  | .retried outcome =>
    if !s.retrying then none
    else
      match outcome with
      | none => some { s with retrying := false, retryInFlight := false }
      | some o =>
        if !o.sent then some { s with retrying := false, retryInFlight := false }
        else some ({ s with retrying := false }.patch .retry (retryPatch o))
  | .receipt receivedAt now =>
    let stopped := { s with timer := false }
    if s.copies.loaded.any isDelivered then some { stopped with received := true }
    else some (stopped.patch .receipt (receiptPatch receivedAt now))
  | .land k fails =>
    match s.copies.land k fails with
    | none => none
    | some (copies, landed) => some ({ s with copies := copies }.goOn landed)

/-- Once a receipt has been processed the message is stored as delivered, and not sent again. -/
def Monotone (s : DirectMessage) : Prop :=
  s.received → s.copies.stored.any isDelivered ∧ s.lateRetry = false

/-- No receipt has come. The message may be anywhere on its way, or of an earlier run. -/
structure Start (s : DirectMessage) : Prop where
  receipts : ∀ t ∈ s.copies.patches, t.origin ≠ .receipt
  received : s.received = false
  lateRetry : s.lateRetry = false

/-- A patch that leaves a delivered message delivered -/
def Harmless (patch : List (String × Json)) : Prop :=
  patchedField patch "deliveryStatus" (.str "delivered") = .str "delivered"

/-- A receipt comes after the message is stored and its sending over, while no retry and no patch to
another status is under way, and to a message that is not loaded as delivered unless it is stored so.
No retry begins while a receipt is processed. -/
def Settled (s : DirectMessage) : DeliveryAct → Prop
  | .receipt _ _ => s.sending = .ended ∧ s.copies.stored.isSome ∧ s.retrying = false ∧
      (∀ t ∈ s.copies.patches, Harmless t.patch) ∧
      (s.copies.loaded.any isDelivered → s.copies.stored.any isDelivered)
  | .cloud isOnline => (isOnline && !s.isOnline && s.retries) →
      ∀ t ∈ s.copies.patches, t.origin ≠ .receipt
  | _ => True

/-! ### What holds in every run -/

/-- A receipt has been processed, or is being processed. -/
def Receiving (s : DirectMessage) : Prop :=
  s.received ∨ ∃ t ∈ s.copies.patches, t.origin = .receipt

structure Inv (s : DirectMessage) : Prop where
  sending : s.Receiving → s.sending = .ended
  timer : s.Receiving → s.timer = false
  retrying : s.Receiving → s.retrying = false
  isSome : s.Receiving → s.copies.stored.isSome
  harmless : s.Receiving → ∀ t ∈ s.copies.patches, Harmless t.patch
  receipts : ∀ t ∈ s.copies.patches, t.origin = .receipt →
    ∀ value, patchedField t.patch "deliveryStatus" value = .str "delivered"
  stored : (s.received ∨ ∃ t ∈ s.copies.patches, t.origin = .receipt ∧ t.isStored) →
    s.copies.stored.any isDelivered
  loaded : s.received → ∀ m, s.copies.loaded = some m → isDelivered m
  lateRetry : s.lateRetry = false

section

variable {s s' : DirectMessage} {m : Message} {p : List (String × Json)} {origin : DeliveryOrigin}
  {o : Outcome} {act : DeliveryAct} {acts : List DeliveryAct} {receivedAt : Json} {now : Int}

theorem isDelivered_withPatch (h : patchedField p "deliveryStatus" (m.field "deliveryStatus") =
    .str "delivered") : isDelivered (withPatch p m) := by
  rw [isDelivered, field_withPatch, h]
  rfl

theorem isDelivered_patchMessage
    (h : patchedField p "deliveryStatus" (m.field "deliveryStatus") = .str "delivered") :
    isDelivered (patchMessage m p) := by
  rw [isDelivered, field_patchMessage (by decide), h]
  rfl

theorem Harmless.patched (h : Harmless p) (hm : isDelivered m) :
    patchedField p "deliveryStatus" (m.field "deliveryStatus") = .str "delivered" := by
  rw [of_decide_eq_true hm]
  exact h

theorem Start.inv (hs : Start s) : Inv s := by
  have hreceived : ¬ s.received := by simp [hs.received]
  have hnot : ¬ s.Receiving := fun h => h.elim hreceived fun ⟨t, ht, horigin⟩ =>
    hs.receipts t ht horigin
  exact ⟨fun h => absurd h hnot, fun h => absurd h hnot, fun h => absurd h hnot,
    fun h => absurd h hnot, fun h => absurd h hnot,
    fun t ht horigin => absurd horigin (hs.receipts t ht),
    fun h => absurd (h.imp_right fun ⟨t, ht, horigin, _⟩ => ⟨t, ht, horigin⟩) hnot,
    fun h => absurd h hreceived, hs.lateRetry⟩

theorem inv_of_not_receiving (hlate : s.lateRetry = false) (h : ¬ s.Receiving) : Inv s := by
  obtain ⟨hreceived, hpatches⟩ := not_or.mp h
  refine Start.inv ⟨fun t ht horigin => hpatches ⟨t, ht, horigin⟩, by simpa using hreceived, hlate⟩

theorem not_receiving_patch (h : ¬ s.Receiving) (horigin : origin ≠ .receipt) :
    ¬ (s.patch origin p).Receiving := by
  rintro (hreceived | ⟨t, ht, hreceipt⟩)
  · exact h (.inl hreceived)
  · obtain ht | rfl := MessageCopies.mem_issue ht
    · exact h (.inr ⟨t, ht, hreceipt⟩)
    · exact horigin hreceipt

theorem not_receiving_failScheduled (h : ¬ s.Receiving) : ¬ s.failScheduled.Receiving := by
  have hover : ¬ ({ s with sending := .ended } : DirectMessage).Receiving := h
  exact not_receiving_patch hover (by decide)

theorem not_receiving_settle (h : ¬ s.Receiving) : ¬ (s.settle o).Receiving := by
  have hover : ∀ timer, ¬ ({ s with sending := .ended, timer := timer } : DirectMessage).Receiving :=
    fun _ => h
  rw [settle]
  cases o.mailbox with
  | stored | delivered => exact not_receiving_patch (hover false) (by decide)
  | none =>
    dsimp only
    split
    · exact not_receiving_patch (hover true) (by decide)
    · exact hover true

theorem lateRetry_settle : (s.settle o).lateRetry = s.lateRetry := by
  rw [settle]
  cases o.mailbox with
  | stored | delivered => rfl
  | none =>
    dsimp only
    split <;> rfl

theorem Inv.failScheduled (hs : Inv s) (h : s.sending ≠ .ended) : Inv s.failScheduled :=
  inv_of_not_receiving hs.lateRetry (not_receiving_failScheduled fun hr => h (hs.sending hr))

theorem Inv.settle (hs : Inv s) (h : s.sending ≠ .ended) : Inv (s.settle o) := by
  refine inv_of_not_receiving ?_ (not_receiving_settle fun hr => h (hs.sending hr))
  rw [lateRetry_settle]
  exact hs.lateRetry

theorem Inv.of_sending (hs : Inv s) (h : s.sending ≠ .ended) (hlate : s'.lateRetry = s.lateRetry)
    (hreceived : s'.received = s.received) (hpatches : s'.copies.patches = s.copies.patches) :
    Inv s' := by
  refine inv_of_not_receiving (hlate.trans hs.lateRetry) fun hr => h (hs.sending ?_)
  rw [Receiving, hreceived, hpatches] at hr
  exact hr

theorem not_retries (hs : Inv s) (hreceived : s.received) : s.retries = false := by
  rw [retries]
  cases hloaded : s.copies.loaded with
  | none => rfl
  | some m =>
    have hm := of_decide_eq_true (hs.loaded hreceived m hloaded)
    rw [any_some, isScheduled, hm]
    simp

theorem Inv.cloud {isOnline : Bool} (hs : Inv s)
    (hsettled : (isOnline && !s.isOnline && s.retries) →
      ∀ t ∈ s.copies.patches, t.origin ≠ .receipt)
    (hstep : s.step (.cloud isOnline) = some s') : Inv s' := by
  rw [step] at hstep
  split at hstep
  next hretries =>
    have hreceived : ¬ s.received := by
      intro hreceived
      rw [not_retries hs hreceived, Bool.and_false] at hretries
      cases hretries
    obtain rfl := some.inj hstep
    refine inv_of_not_receiving ?_ ?_
    · simpa [hs.lateRetry] using hreceived
    · rintro (h | ⟨t, ht, horigin⟩)
      · exact hreceived h
      · exact hsettled hretries t ht horigin
  · obtain rfl := some.inj hstep
    exact ⟨hs.sending, hs.timer, hs.retrying, hs.isSome, hs.harmless, hs.receipts, hs.stored,
      hs.loaded, hs.lateRetry⟩

theorem Inv.append {fails : Bool} (hs : Inv s) (hstep : s.step (.append fails) = some s') :
    Inv s' := by
  rw [step] at hstep
  split at hstep
  · cases hstep
  split at hstep
  · obtain rfl := some.inj hstep
    exact ⟨hs.sending, hs.timer, hs.retrying, hs.isSome, hs.harmless, hs.receipts, hs.stored,
      hs.loaded, hs.lateRetry⟩
  obtain rfl := some.inj hstep
  -- a message that is stored already is left
  have hkept : ∀ m, s.copies.stored = some m →
      s.copies.stored.or (some (pendingMessage s.message)) = some m := by
    intro m hm
    rw [hm, some_or]
  refine ⟨hs.sending, hs.timer, hs.retrying, fun hr => ?_, hs.harmless, hs.receipts,
    fun hreceipt => ?_, hs.loaded, hs.lateRetry⟩
  · obtain ⟨m, hm⟩ := isSome_iff_exists.mp (hs.isSome hr)
    exact isSome_iff_exists.mpr ⟨m, hkept m hm⟩
  · obtain ⟨m, hm, hdelivered⟩ := (any_eq_true _ _).mp (hs.stored hreceipt)
    exact (any_eq_true _ _).mpr ⟨m, hkept m hm, hdelivered⟩

theorem Inv.receipt (hs : Inv s)
    (hsettled : Settled s (.receipt receivedAt now))
    (hstep : s.step (.receipt receivedAt now) = some s') : Inv s' := by
  obtain ⟨hover, hsome, hretrying, hharmless, hdelivered⟩ := hsettled
  rw [step] at hstep
  split at hstep
  next hloaded =>
    obtain rfl := some.inj hstep
    refine ⟨fun _ => hover, fun _ => rfl, fun _ => hretrying, fun _ => hsome, fun _ => hharmless,
      hs.receipts, fun _ => hdelivered hloaded, fun _ m hm => ?_, hs.lateRetry⟩
    have hm' : s.copies.loaded = some m := hm
    rw [hm', any_some] at hloaded
    exact hloaded
  · obtain rfl := some.inj hstep
    refine ⟨fun _ => hover, fun _ => rfl, fun _ => hretrying, fun _ => hsome, fun _ t ht => ?_,
      fun t ht horigin => ?_, fun hreceipt => hs.stored (hreceipt.imp_right ?_), hs.loaded,
      hs.lateRetry⟩
    · obtain ht | rfl := MessageCopies.mem_issue ht
      · exact hharmless t ht
      · rfl
    · obtain ht | rfl := MessageCopies.mem_issue ht
      · exact hs.receipts t ht horigin
      · exact fun _ => rfl
    · rintro ⟨t, ht, horigin, hstored⟩
      obtain ht | rfl := MessageCopies.mem_issue ht
      · exact ⟨t, ht, horigin, hstored⟩
      · cases hstored

/-! ### Patches that land -/

section

variable {c : MessageCopies DeliveryOrigin} {landed : Landed DeliveryOrigin} {k : Nat}
  {t : PatchTask DeliveryOrigin}

theorem receiving_of_lands (ht : s.copies.patches[k]? = some t) (hlands : s.copies.Lands k t c landed)
    (h : ({ s with copies := c } : DirectMessage).Receiving) : s.Receiving := by
  obtain hreceived | ⟨t', ht', horigin⟩ := h
  · exact .inl hreceived
  · obtain ht' | ⟨-, rfl⟩ := hlands.mem_patches ht'
    · exact .inr ⟨t', ht', horigin⟩
    · exact .inr ⟨t, mem_of_getElem? ht, horigin⟩

theorem Inv.lands (hs : Inv s) (ht : s.copies.patches[k]? = some t)
    (hlands : s.copies.Lands k t c landed) : Inv { s with copies := c } := by
  have hmem := mem_of_getElem? ht
  have hreceiving := receiving_of_lands ht hlands
  have hpatch : ∀ t' ∈ c.patches, ∃ t ∈ s.copies.patches, t'.origin = t.origin ∧
      t'.patch = t.patch := by
    intro t' ht'
    obtain ht' | ⟨-, rfl⟩ := hlands.mem_patches ht'
    · exact ⟨t', ht', rfl, rfl⟩
    · exact ⟨t, hmem, rfl, rfl⟩
  refine ⟨fun hr => hs.sending (hreceiving hr), fun hr => hs.timer (hreceiving hr),
    fun hr => hs.retrying (hreceiving hr), fun hr => ?_, fun hr t' ht' => ?_,
    fun t' ht' horigin => ?_, fun hreceipt => ?_, fun hreceived m hm => ?_, hs.lateRetry⟩
  · have hsome := hs.isSome (hreceiving hr)
    cases hlands with
    | stored => rw [isSome_map]; exact hsome
    | failed | finished => exact hsome
  · obtain ⟨t, ht, -, hsame⟩ := hpatch t' ht'
    rw [hsame]
    exact hs.harmless (hreceiving hr) t ht
  · obtain ⟨t, ht, hsame, hpatch⟩ := hpatch t' ht'
    rw [hpatch]
    exact hs.receipts t ht (hsame ▸ horigin)
  · have hkept : ∀ t' ∈ s.copies.patches, t'.origin = .receipt ∧ t'.isStored →
        s.copies.stored.any isDelivered := fun t' ht' h => hs.stored (.inr ⟨t', ht', h⟩)
    cases hlands with
    | stored =>
      rw [Option.any_map]
      by_cases horigin : t.origin = .receipt
      · obtain ⟨m, hm⟩ := isSome_iff_exists.mp (hs.isSome (.inr ⟨t, hmem, horigin⟩))
        rw [hm, any_some]
        exact isDelivered_patchMessage (hs.receipts t hmem horigin _)
      have hold : s.Receiving ∧ s.copies.stored.any isDelivered := by
        obtain hreceived | ⟨t', ht', horigin', hstored⟩ := hreceipt
        · exact ⟨.inl hreceived, hs.stored (.inl hreceived)⟩
        · obtain ht' | rfl := mem_or_eq_of_mem_set ht'
          · exact ⟨.inr ⟨t', ht', horigin'⟩, hkept t' ht' ⟨horigin', hstored⟩⟩
          · exact absurd horigin' horigin
      obtain ⟨m, hm, hdelivered⟩ := (any_eq_true _ _).mp hold.2
      rw [hm, any_some]
      exact isDelivered_patchMessage ((hs.harmless hold.1 t hmem).patched hdelivered)
    | failed | finished =>
      obtain hreceived | ⟨t', ht', h⟩ := hreceipt
      · exact hs.stored (.inl hreceived)
      · exact hkept t' (mem_of_mem_eraseIdx ht') h
  · cases hlands with
    | stored | failed => exact hs.loaded hreceived m hm
    | finished =>
      obtain ⟨old, hold, rfl⟩ := map_eq_some_iff.mp hm
      exact isDelivered_withPatch
        ((hs.harmless (.inl hreceived) t hmem).patched (hs.loaded hreceived old hold))

theorem Inv.received (hs : Inv s) (ht : s.copies.patches[k]? = some t)
    (hlands : s.copies.Lands k t c (.finished .receipt)) :
    Inv { s with copies := c, received := true } := by
  have hmem := mem_of_getElem? ht
  cases hlands with
  | finished hstored horigin =>
    have hr : s.Receiving := .inr ⟨t, hmem, horigin⟩
    refine ⟨fun _ => hs.sending hr, fun _ => hs.timer hr, fun _ => hs.retrying hr,
      fun _ => hs.isSome hr, fun _ t' ht' => hs.harmless hr t' (mem_of_mem_eraseIdx ht'),
      fun t' ht' => hs.receipts t' (mem_of_mem_eraseIdx ht'),
      fun _ => hs.stored (.inr ⟨t, hmem, horigin, hstored⟩), fun _ m hm => ?_, hs.lateRetry⟩
    obtain ⟨old, -, rfl⟩ := map_eq_some_iff.mp hm
    exact isDelivered_withPatch (hs.receipts t hmem horigin _)

theorem Inv.land {fails : Bool} (hs : Inv s) (hstep : s.step (.land k fails) = some s') : Inv s' := by
  rw [step] at hstep
  split at hstep
  · cases hstep
  next c landed hland =>
  obtain rfl := some.inj hstep
  obtain ⟨t, ht, hlands⟩ := MessageCopies.land_cases hland
  have hbase := hs.lands ht hlands
  have hidle : ∀ s : DirectMessage, Inv s → Inv { s with retryInFlight := false } := fun s hs =>
    ⟨hs.sending, hs.timer, hs.retrying, hs.isSome, hs.harmless, hs.receipts, hs.stored, hs.loaded,
      hs.lateRetry⟩
  match landed, hlands with
  | .stored, _ | .failed .nobody, _ => exact hbase
  | .failed .retry, _ => exact hidle _ hbase
  | .failed .receipt, _ | .finished .nobody, _ => exact hbase
  | .finished .retry, _ => exact hidle _ hbase
  | .failed .fileData, _ =>
    rw [goOn]
    split
    next o hsending =>
      refine hbase.failScheduled fun hover => ?_
      rw [hover] at hsending
      cases hsending
    · exact hbase
  | .finished .fileData, _ =>
    rw [goOn]
    split
    next o hsending =>
      refine hbase.settle fun hover => ?_
      rw [hover] at hsending
      cases hsending
    · exact hbase
  | .finished .receipt, hlands => exact hs.received ht hlands

end

theorem Inv.step (hs : Inv s) (hsettled : s.Settled act) (hstep : s.step act = some s') : Inv s' := by
  cases act with
  | send message localPreviewUrl =>
    rw [DirectMessage.step] at hstep
    split at hstep
    next _ _ hstored _ =>
      obtain rfl := some.inj hstep
      refine inv_of_not_receiving hs.lateRetry fun hr => ?_
      have hsome := hs.isSome hr
      rw [hstored] at hsome
      cases hsome
    · cases hstep
  | prepared ok =>
    rw [DirectMessage.step] at hstep
    split at hstep
    next hsending =>
      have hover : s.sending ≠ .ended := by rw [hsending]; exact Sending.noConfusion
      split at hstep
      · obtain rfl := some.inj hstep
        exact hs.of_sending hover rfl rfl rfl
      · obtain rfl := some.inj hstep
        exact hs.failScheduled hover
    · cases hstep
  | append fails => exact hs.append hstep
  | delivered outcome =>
    simp only [DirectMessage.step] at hstep
    split at hstep
    next hsending =>
      have hover : s.sending ≠ .ended := by rw [hsending]; exact Sending.noConfusion
      split at hstep
      · obtain rfl := some.inj hstep
        exact hs.failScheduled hover
      split at hstep
      · obtain rfl := some.inj hstep
        exact hs.failScheduled hover
      · obtain rfl := some.inj hstep
        exact hs.of_sending hover rfl rfl rfl
    · cases hstep
  | appended =>
    rw [DirectMessage.step] at hstep
    split at hstep
    next o hsending _ =>
      have hover : s.sending ≠ .ended := by rw [hsending]; exact Sending.noConfusion
      obtain rfl := some.inj hstep
      exact hs.failScheduled hover
    next o hsending _ =>
      have hover : s.sending ≠ .ended := by rw [hsending]; exact Sending.noConfusion
      split at hstep
      · obtain rfl := some.inj hstep
        exact hs.failScheduled hover
      split at hstep
      · obtain rfl := some.inj hstep
        refine inv_of_not_receiving hs.lateRetry (not_receiving_patch (fun hr => hover ?_) (by decide))
        exact hs.sending hr
      · obtain rfl := some.inj hstep
        exact hs.settle hover
    · cases hstep
  | timeout =>
    rw [DirectMessage.step] at hstep
    split at hstep
    next htimer =>
      obtain rfl := some.inj hstep
      refine inv_of_not_receiving hs.lateRetry (not_receiving_patch (fun hr => ?_) (by decide))
      exact Bool.false_ne_true ((hs.timer hr).symm.trans htimer)
    · cases hstep
  | cloud isOnline => exact hs.cloud hsettled hstep
  | retried outcome =>
    simp only [DirectMessage.step] at hstep
    split at hstep
    · cases hstep
    next hretrying =>
    have hnot : ¬ s.Receiving := fun hr => hretrying (by rw [hs.retrying hr]; rfl)
    split at hstep
    · obtain rfl := some.inj hstep
      exact inv_of_not_receiving hs.lateRetry hnot
    split at hstep
    · obtain rfl := some.inj hstep
      exact inv_of_not_receiving hs.lateRetry hnot
    · obtain rfl := some.inj hstep
      exact inv_of_not_receiving hs.lateRetry (not_receiving_patch hnot (by decide))
  | receipt receivedAt now => exact hs.receipt hsettled hstep
  | land k fails => exact hs.land hstep

/-- As long as every receipt comes to a message that is settled, the message stays delivered. -/
theorem delivered_kept (hs : Start s) (h : Run step Settled s acts s') : Monotone s' := by
  have hinv : Inv s' := h.invariant (fun hsettled hinv hstep => Inv.step hinv hsettled hstep) hs.inv
  exact fun hreceived => ⟨hinv.stored (.inl hreceived), hinv.lateRetry⟩

end

/-- Nothing has been sent. -/
def unsent : DirectMessage where
  message := .empty
  copies := ⟨none, none, []⟩
  sending := .ended
  append := .none
  timer := false
  isOnline := false
  retryInFlight := false
  retrying := false
  received := false
  lateRetry := false

theorem start_unsent : Start unsent where
  receipts _ ht := by cases ht
  received := rfl
  lateRetry := rfl

def hallo : Message :=
  JsObject.ofFields [("kind", .str "chat"), ("content", .str "Hallo"), ("messageId", .str "m1"),
    ("timestamp", .num 5)]

/-- The message goes to a contact who is connected. -/
def sendsHallo : List DeliveryAct :=
  [.send hallo .null, .prepared true, .append false, .delivered (some { sent := true })]

def sendsOn : List DeliveryAct := sendsHallo ++ [.appended]

def landsTwice : List DeliveryAct := [.land 0 false, .land 0 false]

theorem delivered_kept_hallo : ∃ acts s', Run step Settled unsent acts s' ∧ s'.received ∧
    Monotone s' := by
  have hexec : (exec step unsent sendsOn).any fun s₁ => (s₁.sending matches .ended) &&
      s₁.copies.stored.isSome && !s₁.retrying && s₁.copies.patches.isEmpty &&
      !s₁.copies.loaded.any isDelivered &&
      (exec step s₁ (.receipt .null 9 :: landsTwice)).any fun s' => s'.received := by decide +kernel
  obtain ⟨s₁, hs₁, hexec⟩ := (Option.any_eq_true _ _).mp hexec
  simp only [Bool.and_eq_true, Bool.not_eq_true', List.isEmpty_iff] at hexec
  obtain ⟨⟨⟨⟨⟨hover, hsome⟩, hretrying⟩, hpatches⟩, hloaded⟩, hrest⟩ := hexec
  obtain ⟨s', hs', hreceived⟩ := (Option.any_eq_true _ _).mp hrest
  obtain ⟨s₂, hreceipt, hlands⟩ := Option.bind_eq_some_iff.mp hs'
  have hsettled : Settled s₁ (.receipt .null 9) := by
    refine ⟨?_, hsome, hretrying, ?_, ?_⟩
    · split at hover
      next h => exact h
      next => cases hover
    · simp [hpatches]
    · simp [hloaded]
  have hfirst : Run step Settled unsent sendsOn s₁ :=
    .of_exec_of_forall (by simp [sendsOn, sendsHallo, Settled]) hs₁
  have hlast : Run step Settled s₂ landsTwice s' :=
    .of_exec_of_forall (by simp [landsTwice, Settled]) hlands
  have hrun := hfirst.append (.cons hsettled hreceipt hlast)
  exact ⟨_, s', hrun, hreceived, delivered_kept start_unsent hrun⟩

/-- The receipt comes before the timer is set. -/
theorem delivered_lost : ¬ ∀ s acts s', Start s → FreeRun step s acts s' → Monotone s' := by
  intro h
  have hexec : (exec step unsent (sendsHallo ++ [.receipt .null 9] ++ landsTwice ++
      [.appended, .timeout, .land 0 false])).any
        fun s => s.received && !s.copies.stored.any isDelivered := by decide +kernel
  obtain ⟨s', hs', hlost⟩ := (any_eq_true _ _).mp hexec
  rw [Bool.and_eq_true, Bool.not_eq_true'] at hlost
  have hkept := (h unsent _ s' start_unsent (.of_exec hs') hlost.1).1
  rw [hlost.2] at hkept
  cases hkept

end DirectMessage
end Bluetalk.Chat

import Bluetalk.Chat.GroupSending
import Bluetalk.Theory.Run

/-!
# The delivery of a group message

One message that is sent to the members of a group, with what is known of each of them
(`groupDelivery`). The sending, the flushes of the outbox and the receipts each read the loaded map, change
it for one member and write it back as a whole (`src/renderer/app/sendGroupChatMessage.js`,
`src/renderer/app/hooks/useGroupChats.js` and `src/renderer/app/groupInboundHandler.js`).
-/

open List Option

namespace Bluetalk.Chat
open CloudAccount Storage Groups

/-- Who waits for a patch of the message -/
inductive GroupOrigin
  | sending
  | flush
  | receipt (fromId : String) (isSeen : Bool)

def GroupOrigin.isReceipt : GroupOrigin → Bool
  | receipt _ _ => true
  | _ => false

/-- Where the sending is -/
inductive GroupSending
  | ended
  | appending (message : Message) (recipients : List String)
  | delivering (recipients : List String)

/-! ### What is known of the members -/

/-- Delivered is more than sent or offline, and seen is more than delivered. -/
def statusRank (status : Json) : Nat :=
  if status = .str "seen" then 2 else if status = .str "delivered" then 1 else 0

def receiptRank (isSeen : Bool) : Nat := if isSeen then 2 else 1

def deliveryRank (delivery : Json) (peerId : String) : Nat := statusRank (deliveryOf delivery peerId)

def rank (m : Message) (peerId : String) : Nat := deliveryRank (m.field "groupDelivery") peerId

/-- What a patch makes of a member -/
def patchRank (patch : List (String × Json)) (peerId : String) : Nat :=
  deliveryRank (patchedField patch "groupDelivery" .null) peerId

/-- Every patch of the delivery replaces the whole map. -/
def SetsDelivery (patch : List (String × Json)) : Prop :=
  ∀ value, patchedField patch "groupDelivery" value = patchedField patch "groupDelivery" .null

/-- The message as it is first kept, and once the packets have been handed on -/
def initialPatch (recipients : List String) : List (String × Json) :=
  [("groupRecipientIds", .arr (recipients.map .str)), ("from", .str "self")] ++
    Client.deliveryFields (.obj (recipients.map fun id => (id, .obj [("status", .str "offline")])))
      recipients

def sentPatch (recipients : List String) (handedOn : String → Bool) (now : Int) :
    List (String × Json) :=
  Client.deliveryFields (.obj (recipients.map fun id =>
    (id, .obj [("status", .str (if handedOn id then "sent" else "offline")), ("at", .num now)])))
      recipients ++ [("localPreviewUrl", .null)]

def flushPatch (existing : Message) (peerId : String) (now : Int) : List (String × Json) :=
  let recipients := (existing.field "groupRecipientIds").items.map Json.stringOrEmpty
  let delivery := Json.obj (spread (existing.field "groupDelivery").fields
    [(peerId, .obj [("status", .str "sent"), ("at", .num now)])])
  [("groupDelivery", delivery), ("deliveryStatus", .str (deriveGroupDeliveryStatus delivery recipients)),
    ("groupDeliverySummary", summarizeGroupDelivery delivery recipients)]

section

variable {m : Message} {patch : List (String × Json)} {p q : String} {now : Int}
  {recipients : List String}

theorem rank_withPatch (h : SetsDelivery patch) : rank (withPatch patch m) p = patchRank patch p := by
  rw [rank, field_withPatch, h, patchRank]

theorem rank_patchMessage (h : SetsDelivery patch) :
    rank (patchMessage m patch) p = patchRank patch p := by
  rw [rank, field_patchMessage (by decide), h, patchRank]

theorem deliveryRank_spread {delivery : Json} {status : String} {rest : List (String × Json)}
    (hstatus : status ≠ "") :
    deliveryRank (.obj (spread delivery.fields [(p, .obj (("status", .str status) :: rest))])) q =
      if q = p then statusRank (.str status) else deliveryRank delivery q := by
  have hget : (Json.obj (spread delivery.fields [(p, .obj (("status", .str status) :: rest))])).get q =
      if q = p then .obj (("status", .str status) :: rest) else delivery.get q := by
    rw [Json.get, Groups.spread, foldl_cons, foldl_nil, lookup_setField]
    split
    · rfl
    · cases delivery <;> rfl
  rw [deliveryRank, deliveryRank, deliveryOf, deliveryOf, hget]
  split
  · have hfield : (Json.obj (("status", .str status) :: rest)).get "status" = .str status := rfl
    have htruthy : (Json.str status).truthy := decide_eq_true hstatus
    rw [hfield, orElse, orElse, if_pos htruthy, if_pos htruthy]
  · rfl

theorem patchRank_receiptPatch {receipt : Json} :
    patchRank (Client.receiptPatch m receipt p now) q =
      if q = p then receiptRank (receipt.get "status" = .str "seen") else rank m q := by
  have hdelivery : patchedField (Client.receiptPatch m receipt p now) "groupDelivery" .null =
      .obj (spread (m.field "groupDelivery").fields [(p, .obj
        [("status", .str (if receipt.get "status" = .str "seen" then "seen" else "delivered")),
          ("at", .num ((finite (receipt.get "receivedAt")).getD now))])]) := rfl
  rw [patchRank, hdelivery, deliveryRank_spread (by split <;> decide)]
  by_cases hseen : receipt.get "status" = .str "seen"
  · rw [if_pos hseen, decide_eq_true hseen]
    rfl
  · rw [if_neg hseen, decide_eq_false hseen]
    rfl

theorem patchRank_flushPatch :
    patchRank (flushPatch m p now) q = if q = p then 0 else rank m q := by
  have hdelivery : patchedField (flushPatch m p now) "groupDelivery" .null =
      .obj (spread (m.field "groupDelivery").fields [(p, .obj
        [("status", .str "sent"), ("at", .num now)])]) := rfl
  rw [patchRank, hdelivery, deliveryRank_spread (by decide)]
  rfl

theorem deliveryRank_map {status : String → String} {rest : List (String × Json)}
    (h : ∀ id, status id = "sent" ∨ status id = "offline") :
    deliveryRank (.obj (recipients.map fun id => (id, .obj (("status", .str (status id)) :: rest)))) p =
      0 := by
  have hget : (Json.obj (recipients.map fun id => (id, .obj (("status", .str (status id)) :: rest)))).get
      p = .null ∨ (Json.obj (recipients.map fun id =>
        (id, .obj (("status", .str (status id)) :: rest)))).get p =
          .obj (("status", .str (status p)) :: rest) := by
    induction recipients with
    | nil => exact .inl rfl
    | cons id recipients ih =>
      rw [map_cons, Json.get, lookup_cons]
      by_cases hid : p = id
      · rw [hid, beq_self_eq_true]
        exact .inr rfl
      · rw [beq_false_of_ne hid]
        exact ih
  rw [deliveryRank, deliveryOf]
  obtain hget | hget := hget
  · rw [hget]
    rfl
  have hfield : (Json.obj (("status", .str (status p)) :: rest)).get "status" = .str (status p) := rfl
  rw [hget, hfield]
  obtain hstatus | hstatus := h p
  · rw [hstatus]
    rfl
  · rw [hstatus]
    rfl

theorem patchRank_sentPatch {handedOn : String → Bool} :
    patchRank (sentPatch recipients handedOn now) p = 0 :=
  deliveryRank_map fun id => by split <;> simp

theorem rank_initial : rank (withPatch (initialPatch recipients) m) p = 0 := by
  rw [rank_withPatch fun _ => rfl]
  exact @deliveryRank_map _ _ (fun _ => "offline") [] fun _ => .inr rfl

end

/-! ### The message -/

structure GroupDelivery where
  copies : MessageCopies GroupOrigin
  sending : GroupSending
  /-- The members whose packet is queued -/
  outbox : List String
  /-- The flushes that have the packet of a member among what they send -/
  flushing : List String
  /-- The most that has been stored of a member, and loaded. No step reads them. -/
  peak : String → Nat
  loadedPeak : String → Nat
  /-- The most that a receipt has said that has been processed. No step reads it. -/
  confirmed : String → Nat

inductive GroupDeliveryAct
  | send (content : Message) (recipients : List String)
  | append (fails : Bool)
  | delivered (handedOn : String → Bool) (now : Int)
  | flush (peerId : String)
  | flushed (i : Nat) (sent : Bool) (now : Int)
  | receipt (fromId : String) (receipt : Json) (now : Int)
  | land (k : Nat) (fails : Bool)

namespace GroupDelivery

def rankIn (m : Option Message) (p : String) : Nat := m.elim 0 fun m => rank m p

def confirm (fromId : String) (isSeen : Bool) (s : GroupDelivery) : GroupDelivery :=
  { s with
    confirmed := Function.update s.confirmed fromId
      (max (s.confirmed fromId) (receiptRank isSeen)) }

/-- Who has waited for a patch goes on. -/
def goOn (s : GroupDelivery) : Landed GroupOrigin → GroupDelivery
  | .finished (.receipt fromId isSeen) =>
    { s with outbox := s.outbox.filter fun p => p ≠ fromId }.confirm fromId isSeen
  | _ => s

def isSeen (receipt : Json) : Bool := receipt.get "status" = .str "seen"

/-- The ids of the members that the message goes to -/
def goesTo (m : Message) (peerId : String) : Bool :=
  (m.field "groupRecipientIds").items.contains (.str peerId)

def step (s : GroupDelivery) : GroupDeliveryAct → Option GroupDelivery
  | .send content recipients =>
    match s.sending, s.copies with
    | .ended, ⟨none, none, []⟩ =>
      let message := withPatch (initialPatch recipients) content
      some { s with
        copies := { s.copies with loaded := some message }
        sending := .appending message recipients }
    | _, _ => none
  | .append fails =>
    match s.sending with
    | .appending message recipients =>
      if fails then some { s with sending := .ended }
      else some { s with
        copies := { s.copies with stored := s.copies.stored.or (some message) }
        outbox := s.outbox ++ recipients
        sending := .delivering recipients }
    | _ => none
  | .delivered handedOn now =>
    match s.sending with
    | .delivering recipients => some { s with
        copies := s.copies.issue .sending (sentPatch recipients handedOn now)
        sending := .ended }
    | _ => none
  | .flush peerId =>
    if s.outbox.contains peerId then some { s with flushing := s.flushing ++ [peerId] } else none
  | .flushed i sent now =>
    match s.flushing[i]? with
    | none => none
    | some peerId =>
      let rest := { s with flushing := s.flushing.eraseIdx i }
      if !sent then some rest
      else
        match s.copies.loaded with
        | none => some rest
        | some m => some { rest with copies := s.copies.issue .flush (flushPatch m peerId now) }
  | .receipt fromId receipt now =>
    match s.copies.loaded.filter fun m => m.field "from" = .str "self" with
    | none => some (s.confirm fromId (isSeen receipt))
    | some m =>
      if goesTo m fromId then
        some { s with
          copies := s.copies.issue (.receipt fromId (isSeen receipt))
            (Client.receiptPatch m receipt fromId now) }
      else some s
  | .land k fails =>
    match s.copies.land k fails with
    | none => none
    | some (copies, landed) => some ({ s with
        copies := copies
        peak := fun p => max (s.peak p) (rankIn copies.stored p)
        loadedPeak := fun p => max (s.loadedPeak p) (rankIn copies.loaded p) }.goOn landed)

/-- What is known of a member never gets less, and what a receipt has said is known of its sender. -/
def Monotone (s : GroupDelivery) : Prop :=
  ∀ p, s.peak p ≤ rankIn s.copies.stored p ∧ s.loadedPeak p ≤ rankIn s.copies.loaded p ∧
    s.confirmed p ≤ rankIn s.copies.stored p ∧ s.confirmed p ≤ rankIn s.copies.loaded p

/-- The message is not on its way, and known the same where it is stored and loaded. -/
structure Start (s : GroupDelivery) : Prop where
  sending : s.sending = .ended
  patches : s.copies.patches = []
  copies : ∀ m m', s.copies.stored = some m → s.copies.loaded = some m' → ∀ p, rank m p = rank m' p
  peak : ∀ p, s.peak p = rankIn s.copies.stored p
  loadedPeak : ∀ p, s.loadedPeak p = rankIn s.copies.loaded p
  confirmed : ∀ p, s.confirmed p = 0

/-- A receipt comes to a message that is stored and loaded, after its sending has written what it knows,
while no patch is in flight except of the same receipt, and does not say less than is known. A flush
that has sent the packet of a member finds nothing delivered to it, and no receipt being written. -/
def Orderly (s : GroupDelivery) : GroupDeliveryAct → Prop
  | .receipt fromId receipt _ => ∃ m, s.copies.loaded = some m ∧ m.field "from" = .str "self" ∧
      (goesTo m fromId → s.copies.stored.isSome ∧ s.sending = .ended ∧
        rank m fromId ≤ receiptRank (isSeen receipt) ∧
        ∀ t ∈ s.copies.patches, t.origin = .receipt fromId (isSeen receipt))
  | .flushed i sent _ => ∀ peerId m, s.flushing[i]? = some peerId → sent → s.copies.loaded = some m →
      rank m peerId = 0 ∧ ∀ t ∈ s.copies.patches, t.origin.isReceipt = false
  | _ => True

/-! ### The two copies -/

/-- All patches in flight say the same of every member, at least what is stored and loaded. They are
the same receipt, or none is a receipt and they say what is known already. -/
structure Aligned (c : MessageCopies GroupOrigin) (target : String → Nat) : Prop where
  sets : ∀ t ∈ c.patches, SetsDelivery t.patch
  patches : ∀ t ∈ c.patches, ∀ p, patchRank t.patch p = target p
  stored_le : ∀ p, rankIn c.stored p ≤ target p
  loaded_le : ∀ p, rankIn c.loaded p ≤ target p
  reached : ∀ t ∈ c.patches, t.isStored → ∀ m, c.stored = some m → ∀ p, rank m p = target p
  settled : (∃ t ∈ c.patches, t.isStored) ∨
    ∀ m m', c.stored = some m → c.loaded = some m' → ∀ p, rank m p = rank m' p
  quiet : (∀ t ∈ c.patches, t.origin.isReceipt = false) →
    (∀ m, c.stored = some m → ∀ p, rank m p = target p) ∧
      ∀ m, c.loaded = some m → ∀ p, rank m p = target p
  receipts : ∀ t ∈ c.patches, ∀ q isSeen, t.origin = .receipt q isSeen →
    target q = receiptRank isSeen ∧ (∀ t' ∈ c.patches, t'.origin = .receipt q isSeen) ∧
      (∀ m, c.loaded = some m → ∀ p, p ≠ q → rank m p = target p) ∧
      c.stored.isSome ∧ c.loaded.isSome

section

variable {c c' : MessageCopies GroupOrigin} {target : String → Nat} {p q : String} {m : Message}
  {patch : List (String × Json)} {origin : GroupOrigin} {seen : Bool} {t : PatchTask GroupOrigin}
  {k : Nat} {landed : Landed GroupOrigin}

theorem Aligned.issue (h : Aligned c target) (hsets : SetsDelivery patch)
    (hrank : ∀ p, patchRank patch p = target p) (horigin : origin.isReceipt = false)
    (hnone : ∀ t ∈ c.patches, t.origin.isReceipt = false) :
    Aligned (c.issue origin patch) target := by
  have hnone' : ∀ t ∈ (c.issue origin patch).patches, t.origin.isReceipt = false := by
    intro t ht
    obtain ht | rfl := MessageCopies.mem_issue ht
    · exact hnone t ht
    · exact horigin
  refine ⟨fun t ht => ?_, fun t ht => ?_, h.stored_le, h.loaded_le, fun t ht hstored => ?_,
    h.settled.imp_left ?_, fun _ => h.quiet hnone, fun t ht q seen hreceipt => ?_⟩
  · obtain ht | rfl := MessageCopies.mem_issue ht
    · exact h.sets t ht
    · exact hsets
  · obtain ht | rfl := MessageCopies.mem_issue ht
    · exact h.patches t ht
    · exact hrank
  · obtain ht | rfl := MessageCopies.mem_issue ht
    · exact h.reached t ht hstored
    · cases hstored
  · rintro ⟨t, ht, hstored⟩
    exact ⟨t, mem_append_left _ ht, hstored⟩
  · have hfalse := hnone' t ht
    rw [hreceipt] at hfalse
    cases hfalse

theorem Aligned.issueReceipt (h : Aligned c target) (hsets : SetsDelivery patch)
    (hloaded : c.loaded = some m) (hstored : c.stored.isSome)
    (hrank : ∀ p, patchRank patch p = if p = q then receiptRank seen else rank m p)
    (hmore : rank m q ≤ receiptRank seen) (hsame : ∀ t ∈ c.patches, t.origin = .receipt q seen) :
    ∃ target', Aligned (c.issue (.receipt q seen) patch) target' := by
  obtain ⟨target', htarget⟩ : ∃ target' : String → Nat,
    ∀ p, target' p = if p = q then receiptRank seen else rank m p := ⟨_, fun _ => rfl⟩
  have hin : ∀ t ∈ c.patches, target' = target := by
    intro t ht
    obtain ⟨hq, -, hothers, -⟩ := h.receipts t ht q seen (hsame t ht)
    funext p
    rw [htarget]
    split
    next hp => rw [hp, hq]
    next hp => exact hothers m hloaded p hp
  have hle : ∀ p, target p ≤ target' p := by
    intro p
    cases hpatches : c.patches with
    | nil =>
      have hquiet := (h.quiet (by simp [hpatches])).2 m hloaded p
      rw [htarget, ← hquiet]
      split
      next hp => rw [hp]; exact hmore
      next => exact le_rfl
    | cons t ts =>
      have ht : t ∈ c.patches := hpatches ▸ mem_cons_self
      rw [hin t ht]
  have hall : ∀ t ∈ (c.issue (.receipt q seen) patch).patches, t.origin = .receipt q seen := by
    intro t ht
    obtain ht | rfl := MessageCopies.mem_issue ht
    · exact hsame t ht
    · rfl
  refine ⟨target', fun t ht => ?_, fun t ht p => ?_, fun p => (h.stored_le p).trans (hle p),
    fun p => (h.loaded_le p).trans (hle p), fun t ht hstored => ?_, h.settled.imp_left ?_,
    fun hquiet => ?_, fun t ht q' seen' hreceipt => ?_⟩
  · obtain ht | rfl := MessageCopies.mem_issue ht
    · exact h.sets t ht
    · exact hsets
  · obtain ht | rfl := MessageCopies.mem_issue ht
    · rw [hin t ht]
      exact h.patches t ht p
    · rw [htarget]
      exact hrank p
  · obtain ht | rfl := MessageCopies.mem_issue ht
    · rw [hin t ht]
      exact h.reached t ht hstored
    · cases hstored
  · rintro ⟨t, ht, hstored⟩
    exact ⟨t, mem_append_left _ ht, hstored⟩
  · have hfalse := hquiet _ (mem_append_right _ mem_cons_self)
    cases hfalse
  · rw [hall t ht] at hreceipt
    obtain ⟨rfl, rfl⟩ := GroupOrigin.receipt.inj hreceipt
    refine ⟨by rw [htarget, if_pos rfl], hall, fun m' hm' p hp => ?_, hstored, ?_⟩
    · obtain rfl := some.inj (hloaded.symm.trans hm')
      rw [htarget, if_neg hp]
    · have hsome : c.loaded.isSome := by rw [hloaded]; rfl
      exact hsome

theorem rankIn_some : rankIn (some m) p = rank m p := rfl

theorem rank_eq_max {o : Option Message} (h : ∀ m', o = some m' → ∀ p, rank m p = rank m' p) :
    rank m p = max (rank m p) (rankIn o p) := by
  cases o with
  | none => exact (max_eq_left (Nat.zero_le _)).symm
  | some m' => rw [rankIn_some, ← h m' rfl p, max_self]

theorem rankIn_map {o : Option Message} {f : Message → Message}
    (hf : ∀ m, o.map f = some m → ∀ p, rank m p = target p) (hle : ∀ p, rankIn o p ≤ target p)
    (p : String) : rankIn o p ≤ rankIn (o.map f) p ∧ rankIn (o.map f) p ≤ target p := by
  cases o with
  | none => exact ⟨le_rfl, Nat.zero_le _⟩
  | some m =>
    rw [map_some, rankIn_some (m := f m), hf _ rfl]
    exact ⟨hle p, le_rfl⟩

/-- What a patch that lands leaves -/
structure Keeps (c c' : MessageCopies GroupOrigin) (landed : Landed GroupOrigin) : Prop where
  stored : ∀ p, rankIn c.stored p ≤ rankIn c'.stored p
  loaded : ∀ p, rankIn c.loaded p ≤ rankIn c'.loaded p
  receipt : ∀ q seen, landed = .finished (.receipt q seen) →
    receiptRank seen ≤ rankIn c'.stored q ∧ receiptRank seen ≤ rankIn c'.loaded q

theorem Aligned.store (h : Aligned c target) (ht : c.patches[k]? = some t) :
    Aligned { c with
      stored := c.stored.map fun m => patchMessage m t.patch
      patches := c.patches.set k { t with isStored := true } } target ∧
    ∀ p, rankIn c.stored p ≤ rankIn (c.stored.map fun m => patchMessage m t.patch) p := by
  have hmem := mem_of_getElem? ht
  have hrank : ∀ m, (c.stored.map fun m => patchMessage m t.patch) = some m → ∀ p,
      rank m p = target p := by
    intro m hm p
    obtain ⟨old, -, rfl⟩ := map_eq_some_iff.mp hm
    rw [rank_patchMessage (h.sets t hmem), h.patches t hmem]
  have hrankIn := rankIn_map hrank h.stored_le
  have hold : ∀ t' ∈ c.patches.set k { t with isStored := true },
      ∃ old ∈ c.patches, t'.origin = old.origin ∧ t'.patch = old.patch := by
    intro t' ht'
    obtain ht' | rfl := mem_or_eq_of_mem_set ht'
    · exact ⟨t', ht', rfl, rfl⟩
    · exact ⟨t, hmem, rfl, rfl⟩
  have hnew : ∀ old ∈ c.patches, ∃ t' ∈ c.patches.set k { t with isStored := true },
      t'.origin = old.origin := by
    intro old hold
    obtain ⟨i, hi⟩ := mem_iff_getElem?.mp hold
    by_cases hik : k = i
    · refine ⟨{ t with isStored := true }, mem_iff_getElem?.mpr ⟨k, ?_⟩, ?_⟩
      · rw [List.getElem?_set_self (List.getElem?_eq_some_iff.mp ht).1]
      · rw [← hik, ht] at hi
        rw [some.inj hi]
    · exact ⟨old, mem_iff_getElem?.mpr ⟨i, by rw [getElem?_set_ne hik, hi]⟩, rfl⟩
  refine ⟨⟨fun t' ht' => ?_, fun t' ht' => ?_, fun p => (hrankIn p).2, h.loaded_le,
    fun _ _ _ => hrank, .inl ⟨{ t with isStored := true }, ?_, rfl⟩, fun hquiet => ⟨hrank, ?_⟩,
    fun t' ht' q seen hreceipt => ?_⟩, fun p => (hrankIn p).1⟩
  · obtain ⟨old, hmem', -, hpatch⟩ := hold t' ht'
    rw [hpatch]
    exact h.sets old hmem'
  · obtain ⟨old, hmem', -, hpatch⟩ := hold t' ht'
    rw [hpatch]
    exact h.patches old hmem'
  · exact mem_iff_getElem?.mpr
      ⟨k, List.getElem?_set_self (List.getElem?_eq_some_iff.mp ht).1⟩
  · refine (h.quiet fun old hmem' => ?_).2
    obtain ⟨t', ht', horigin⟩ := hnew old hmem'
    rw [← horigin]
    exact hquiet t' ht'
  · obtain ⟨old, hmem', horigin, -⟩ := hold t' ht'
    rw [horigin] at hreceipt
    obtain ⟨htarget, hall, hothers, hsome, hloaded⟩ := h.receipts old hmem' q seen hreceipt
    refine ⟨htarget, fun t'' ht'' => ?_, hothers, ?_, hloaded⟩
    · obtain ⟨old', hmem'', horigin', -⟩ := hold t'' ht''
      rw [horigin']
      exact hall old' hmem''
    · rw [isSome_map]
      exact hsome

theorem Aligned.erase (h : Aligned c target) (ht : c.patches[k]? = some t) (hfresh : t.isStored = false) :
    ∃ target', Aligned { c with patches := c.patches.eraseIdx k } target' ∧
      ∀ p, target' p ≤ target p := by
  have hsubset : ∀ t' ∈ c.patches.eraseIdx k, t' ∈ c.patches := fun _ => mem_of_mem_eraseIdx
  -- a patch that is stored is another one
  have hsettled : (∃ t' ∈ c.patches.eraseIdx k, t'.isStored) ∨
      ∀ m m', c.stored = some m → c.loaded = some m' → ∀ p, rank m p = rank m' p := by
    refine h.settled.imp_left ?_
    rintro ⟨t', ht', hstored⟩
    obtain ⟨i, hi⟩ := mem_iff_getElem?.mp ht'
    refine ⟨t', mem_eraseIdx_iff_getElem?.mpr ⟨i, ?_, hi⟩, hstored⟩
    rintro rfl
    obtain rfl := some.inj (ht.symm.trans hi)
    rw [hfresh] at hstored
    cases hstored
  cases hrest : c.patches.eraseIdx k with
  | nil =>
    have hequal := hsettled.resolve_left (by simp [hrest])
    refine ⟨fun p => max (rankIn c.stored p) (rankIn c.loaded p), ⟨by simp, by simp,
      fun p => le_max_left _ _, fun p => le_max_right _ _, by simp, .inr hequal,
      fun _ => ⟨fun m hm p => ?_, fun m hm p => ?_⟩, by simp⟩,
      fun p => max_le (h.stored_le p) (h.loaded_le p)⟩
    · rw [hm]
      exact rank_eq_max fun m' h' => hequal m m' hm h'
    · rw [hm, max_comm]
      exact rank_eq_max fun m' h' p => (hequal m' m h' hm p).symm
  | cons t₀ ts =>
    have hmem₀ : t₀ ∈ c.patches.eraseIdx k := hrest ▸ mem_cons_self
    rw [← hrest]
    refine ⟨target, ⟨fun t' ht' => h.sets t' (hsubset t' ht'),
      fun t' ht' => h.patches t' (hsubset t' ht'), h.stored_le, h.loaded_le,
      fun t' ht' => h.reached t' (hsubset t' ht'), hsettled, fun hquiet => h.quiet fun t' ht' => ?_,
      fun t' ht' q seen hreceipt => ?_⟩, fun _ => le_rfl⟩
    · -- with one receipt in flight all would be
      cases horigin : t'.origin with
      | receipt q seen =>
        have hall := (h.receipts t' ht' q seen horigin).2.1 t₀ (hsubset t₀ hmem₀)
        have hfalse := hquiet t₀ hmem₀
        rw [hall] at hfalse
        cases hfalse
      | sending | flush => rfl
    · obtain ⟨htarget, hall, hrest⟩ := h.receipts t' (hsubset t' ht') q seen hreceipt
      exact ⟨htarget, fun t'' ht'' => hall t'' (hsubset t'' ht''), hrest⟩

theorem Aligned.finish (h : Aligned c target) (hmem : t ∈ c.patches) (hstored : t.isStored) :
    Aligned { c with
      loaded := c.loaded.map (withPatch t.patch)
      patches := c.patches.eraseIdx k } target ∧
    ∀ p, rankIn c.loaded p ≤ rankIn (c.loaded.map (withPatch t.patch)) p := by
  have hsubset : ∀ t' ∈ c.patches.eraseIdx k, t' ∈ c.patches := fun _ => mem_of_mem_eraseIdx
  have hrank : ∀ m, c.loaded.map (withPatch t.patch) = some m → ∀ p, rank m p = target p := by
    intro m hm p
    obtain ⟨old, -, rfl⟩ := map_eq_some_iff.mp hm
    rw [rank_withPatch (h.sets t hmem), h.patches t hmem]
  have hrankIn := rankIn_map hrank h.loaded_le
  have hreached := h.reached t hmem hstored
  refine ⟨⟨fun t' ht' => h.sets t' (hsubset t' ht'), fun t' ht' => h.patches t' (hsubset t' ht'),
    h.stored_le, fun p => (hrankIn p).2, fun t' ht' => h.reached t' (hsubset t' ht'),
    .inr fun m m' hm hm' p => (hreached m hm p).trans (hrank m' hm' p).symm,
    fun _ => ⟨hreached, hrank⟩, fun t' ht' q seen hreceipt => ?_⟩, fun p => (hrankIn p).1⟩
  obtain ⟨htarget, hall, -, hsome, hloaded⟩ := h.receipts t' (hsubset t' ht') q seen hreceipt
  refine ⟨htarget, fun t'' ht'' => hall t'' (hsubset t'' ht''), fun m hm p _ => hrank m hm p, hsome, ?_⟩
  rw [isSome_map]
  exact hloaded

theorem Aligned.lands (h : Aligned c target) (ht : c.patches[k]? = some t)
    (hlands : c.Lands k t c' landed) :
    ∃ target', Aligned c' target' ∧ (∀ p, target' p ≤ target p) ∧ Keeps c c' landed := by
  have hmem := mem_of_getElem? ht
  cases hlands with
  | stored =>
    obtain ⟨haligned, hle⟩ := h.store ht
    exact ⟨target, haligned, fun _ => le_rfl, hle, fun _ => le_rfl, fun q seen hlanded => by cases hlanded⟩
  | failed hfresh =>
    obtain ⟨target', haligned, hle⟩ := h.erase ht hfresh
    exact ⟨target', haligned, hle, fun _ => le_rfl, fun _ => le_rfl, fun q seen hlanded => by cases hlanded⟩
  | finished hstored horigin =>
    obtain ⟨haligned, hle⟩ := h.finish (k := k) hmem hstored
    refine ⟨target, haligned, fun _ => le_rfl, fun _ => le_rfl, hle, fun q seen hlanded => ?_⟩
    have hreceipt : t.origin = .receipt q seen := horigin.trans (Landed.finished.inj hlanded)
    obtain ⟨htarget, -, -, hsome, hloaded⟩ := h.receipts t hmem q seen hreceipt
    obtain ⟨m, hm⟩ := isSome_iff_exists.mp hsome
    obtain ⟨m', hm'⟩ := isSome_iff_exists.mp hloaded
    constructor
    · rw [hm, rankIn_some, h.reached t hmem hstored m hm, htarget]
    · rw [hm', map_some, rankIn_some, rank_withPatch (h.sets t hmem), h.patches t hmem, htarget]

end

/-! ### What holds in every run -/

structure Inv (s : GroupDelivery) : Prop where
  aligned : ∃ target, Aligned s.copies target ∧ (s.sending ≠ .ended →
    (∀ t ∈ s.copies.patches, t.origin.isReceipt = false) ∧ ∀ p, target p = 0)
  message : ∀ message recipients, s.sending = .appending message recipients →
    ∀ p, rank message p = 0
  monotone : s.Monotone

section

variable {s s' : GroupDelivery} {acts : List GroupDeliveryAct} {act : GroupDeliveryAct}
  {fails : Bool} {now : Int}

theorem Start.inv (hs : Start s) : Inv s where
  aligned := by
    refine ⟨fun p => max (rankIn s.copies.stored p) (rankIn s.copies.loaded p), ⟨?_, ?_,
      fun p => le_max_left _ _, fun p => le_max_right _ _, ?_, .inr hs.copies,
      fun _ => ⟨fun m hm p => ?_, fun m hm p => ?_⟩, ?_⟩, fun h => absurd hs.sending h⟩
    · simp [hs.patches]
    · simp [hs.patches]
    · simp [hs.patches]
    · rw [hm]
      exact rank_eq_max fun m' h' => hs.copies m m' hm h'
    · rw [hm, max_comm]
      exact rank_eq_max fun m' h' p => (hs.copies m' m h' hm p).symm
    · simp [hs.patches]
  message message recipients h := by
    rw [hs.sending] at h
    cases h
  monotone p := by
    rw [hs.peak, hs.loadedPeak, hs.confirmed]
    exact ⟨le_rfl, le_rfl, Nat.zero_le _, Nat.zero_le _⟩

theorem Inv.send {content : Message} {recipients : List String} (hs : Inv s)
    (hstep : s.step (.send content recipients) = some s') : Inv s' := by
  rw [step] at hstep
  split at hstep
  next hover hcopies =>
    obtain rfl := some.inj hstep
    have hmessage : ∀ p, rank (withPatch (initialPatch recipients) content) p = 0 :=
      fun _ => rank_initial
    rw [hcopies]
    refine ⟨⟨fun _ => 0, ⟨by simp, by simp, fun _ => le_rfl, fun p => (hmessage p).le, by simp,
      .inr (by simp), fun _ => ⟨by simp, fun m hm p => ?_⟩, by simp⟩, fun _ => ⟨by simp, fun _ => rfl⟩⟩,
      fun message recipients' h => ?_, fun p => ?_⟩
    · obtain rfl := some.inj hm
      exact hmessage p
    · obtain ⟨rfl, -⟩ := GroupSending.appending.inj h
      exact hmessage
    -- nothing was known of a message that was not there
    have hold := hs.monotone p
    rw [hcopies] at hold
    obtain ⟨hpeak, hloaded, hconfirmed, -⟩ := hold
    exact ⟨hpeak, hloaded.trans (Nat.zero_le _), hconfirmed, hconfirmed.trans (Nat.zero_le _)⟩
  · cases hstep

theorem Inv.append (hs : Inv s) (hstep : s.step (.append fails) = some s') : Inv s' := by
  rw [step] at hstep
  split at hstep
  next message recipients hsending =>
    obtain ⟨target, haligned, hzero⟩ := hs.aligned
    split at hstep
    · obtain rfl := some.inj hstep
      exact ⟨⟨target, haligned, fun h => absurd rfl h⟩, fun _ _ h => (by cases h),
        hs.monotone⟩
    obtain rfl := some.inj hstep
    obtain ⟨hnone, hzero⟩ := hzero (by rw [hsending]; exact GroupSending.noConfusion)
    have hmessage := hs.message message recipients hsending
    obtain ⟨hstored, hloaded⟩ := haligned.quiet hnone
    have hrank : ∀ m, s.copies.stored.or (some message) = some m → ∀ p, rank m p = target p := by
      intro m hm p
      cases hold : s.copies.stored with
      | none =>
        rw [hold, none_or] at hm
        rw [← some.inj hm, hmessage, hzero]
      | some old =>
        rw [hold, some_or] at hm
        exact hstored m (hold.trans hm) p
    have hrankIn : ∀ p, rankIn (s.copies.stored.or (some message)) p = 0 := by
      intro p
      cases hnew : s.copies.stored.or (some message) with
      | none => rfl
      | some m => rw [rankIn_some, hrank m hnew, hzero]
    have hold : ∀ p, rankIn s.copies.stored p = 0 := fun p =>
      Nat.le_zero.mp ((haligned.stored_le p).trans (hzero p).le)
    refine ⟨⟨target, ⟨haligned.sets, haligned.patches, fun p => (hrankIn p).le.trans (Nat.zero_le _),
      haligned.loaded_le, fun _ _ _ => hrank,
      .inr fun m m' hm hm' p => (hrank m hm p).trans (hloaded m' hm' p).symm,
      fun _ => ⟨hrank, hloaded⟩, fun t ht q seen hreceipt => ?_⟩, fun _ => ⟨hnone, hzero⟩⟩,
      fun _ _ h => (by cases h), fun p => ?_⟩
    · have hfalse := hnone t ht
      rw [hreceipt] at hfalse
      cases hfalse
    · obtain ⟨hpeak, hloadedPeak, hconfirmed, hconfirmed'⟩ := hs.monotone p
      rw [hold] at hpeak hconfirmed
      exact ⟨hpeak.trans (Nat.zero_le _), hloadedPeak, hconfirmed.trans (Nat.zero_le _),
        hconfirmed'⟩
  · cases hstep

theorem Inv.delivered {handedOn : String → Bool} (hs : Inv s)
    (hstep : s.step (.delivered handedOn now) = some s') : Inv s' := by
  rw [step] at hstep
  split at hstep
  next recipients hsending =>
    obtain rfl := some.inj hstep
    obtain ⟨target, haligned, hzero⟩ := hs.aligned
    obtain ⟨hnone, hzero⟩ := hzero (by rw [hsending]; exact GroupSending.noConfusion)
    refine ⟨⟨target, haligned.issue (fun _ => rfl) (fun p => ?_) rfl hnone, fun h => absurd rfl h⟩,
      fun _ _ h => (by cases h), hs.monotone⟩
    rw [patchRank_sentPatch, hzero]
  · cases hstep

theorem Inv.flushed {i : Nat} {sent : Bool} (hs : Inv s)
    (horderly : s.Orderly (.flushed i sent now)) (hstep : s.step (.flushed i sent now) = some s') :
    Inv s' := by
  rw [step] at hstep
  split at hstep
  · cases hstep
  next peerId hpeer =>
  have hrest : Inv { s with flushing := s.flushing.eraseIdx i } := ⟨hs.aligned, hs.message, hs.monotone⟩
  split at hstep
  · obtain rfl := some.inj hstep
    exact hrest
  next hsent =>
  split at hstep
  · obtain rfl := some.inj hstep
    exact hrest
  next m hloaded =>
  obtain rfl := some.inj hstep
  obtain ⟨hnothing, hnone⟩ := horderly peerId m hpeer (by simpa using hsent) hloaded
  obtain ⟨target, haligned, hzero⟩ := hs.aligned
  have htarget := (haligned.quiet hnone).2 m hloaded
  refine ⟨⟨target, haligned.issue (fun _ => rfl) (fun p => ?_) rfl hnone, fun h => ?_⟩, hs.message,
    hs.monotone⟩
  · rw [patchRank_flushPatch, ← htarget p]
    split
    next hp => rw [hp, hnothing]
    next => rfl
  obtain ⟨-, hzero⟩ := hzero h
  refine ⟨fun t ht => ?_, hzero⟩
  obtain ht | rfl := MessageCopies.mem_issue ht
  · exact hnone t ht
  · rfl

theorem Inv.receipt {fromId : String} {receipt : Json} (hs : Inv s)
    (horderly : s.Orderly (.receipt fromId receipt now))
    (hstep : s.step (.receipt fromId receipt now) = some s') : Inv s' := by
  obtain ⟨m, hloaded, hself, horderly⟩ := horderly
  have hfound : (s.copies.loaded.filter fun m => m.field "from" = .str "self") = some m :=
    filter_eq_some_iff.mpr ⟨hloaded, decide_eq_true hself⟩
  rw [step, hfound] at hstep
  dsimp only at hstep
  split at hstep
  next hgoes =>
    obtain rfl := some.inj hstep
    obtain ⟨hstored, hover, hmore, hsame⟩ := horderly hgoes
    obtain ⟨target, haligned, -⟩ := hs.aligned
    obtain ⟨target', haligned'⟩ := haligned.issueReceipt (fun _ => rfl) hloaded hstored
      (fun p => patchRank_receiptPatch) hmore hsame
    exact ⟨⟨target', haligned', fun h => absurd hover h⟩, hs.message, hs.monotone⟩
  · obtain rfl := some.inj hstep
    exact hs

theorem Inv.land {k : Nat} (hs : Inv s) (hstep : s.step (.land k fails) = some s') :
    Inv s' := by
  rw [step] at hstep
  split at hstep
  · cases hstep
  next c landed hland =>
  obtain rfl := some.inj hstep
  obtain ⟨t, ht, hlands⟩ := MessageCopies.land_cases hland
  obtain ⟨target, haligned, hzero⟩ := hs.aligned
  obtain ⟨target', haligned', hle, hkeeps⟩ := haligned.lands ht hlands
  have hzero' : s.sending ≠ .ended →
      (∀ t ∈ c.patches, t.origin.isReceipt = false) ∧ ∀ p, target' p = 0 := by
    intro h
    obtain ⟨hnone, hzero⟩ := hzero h
    refine ⟨fun t' ht' => ?_, fun p => Nat.le_zero.mp ((hle p).trans (hzero p).le)⟩
    obtain ht' | ⟨-, rfl⟩ := hlands.mem_patches ht'
    · exact hnone t' ht'
    · exact hnone t (mem_of_getElem? ht)
  have hkept : ∀ p, max (s.peak p) (rankIn c.stored p) ≤ rankIn c.stored p ∧
      max (s.loadedPeak p) (rankIn c.loaded p) ≤ rankIn c.loaded p ∧
      s.confirmed p ≤ rankIn c.stored p ∧ s.confirmed p ≤ rankIn c.loaded p := by
    intro p
    obtain ⟨hpeak, hloadedPeak, hconfirmed, hconfirmed'⟩ := hs.monotone p
    exact ⟨max_le (hpeak.trans (hkeeps.stored p)) le_rfl,
      max_le (hloadedPeak.trans (hkeeps.loaded p)) le_rfl, hconfirmed.trans (hkeeps.stored p),
      hconfirmed'.trans (hkeeps.loaded p)⟩
  rw [goOn.eq_def]
  split
  next fromId seen =>
    refine ⟨⟨target', haligned', hzero'⟩, hs.message, fun p => ?_⟩
    obtain ⟨hpeak, hloadedPeak, hconfirmed, hconfirmed'⟩ := hkept p
    obtain ⟨hstored, hloaded⟩ := hkeeps.receipt fromId seen rfl
    simp only [confirm, Function.update_apply]
    split
    next hp =>
      subst hp
      exact ⟨hpeak, hloadedPeak, max_le hconfirmed hstored, max_le hconfirmed' hloaded⟩
    next => exact ⟨hpeak, hloadedPeak, hconfirmed, hconfirmed'⟩
  · exact ⟨⟨target', haligned', hzero'⟩, hs.message, hkept⟩

theorem Inv.step (hs : Inv s) (horderly : s.Orderly act) (hstep : s.step act = some s') : Inv s' := by
  cases act with
  | send content recipients => exact hs.send hstep
  | append fails => exact hs.append hstep
  | delivered handedOn now => exact hs.delivered hstep
  | flush peerId =>
    rw [GroupDelivery.step] at hstep
    split at hstep
    · obtain rfl := some.inj hstep
      exact ⟨hs.aligned, hs.message, hs.monotone⟩
    · cases hstep
  | flushed i sent now => exact hs.flushed horderly hstep
  | receipt fromId receipt now => exact hs.receipt horderly hstep
  | land k fails => exact hs.land hstep

/-- As long as every receipt and every flush comes to a message that nobody else is changing, nothing that
is known of a member is lost. -/
theorem delivery_monotone (hs : Start s) (h : Run step Orderly s acts s') : Monotone s' := by
  have hinv : Inv s' := h.invariant (fun horderly hinv hstep => Inv.step hinv horderly hstep) hs.inv
  exact hinv.monotone

end

/-- Nothing has been sent. -/
def unsent : GroupDelivery where
  copies := ⟨none, none, []⟩
  sending := .ended
  outbox := []
  flushing := []
  peak _ := 0
  loadedPeak _ := 0
  confirmed _ := 0

theorem start_unsent : Start unsent where
  sending := rfl
  patches := rfl
  copies m m' hm := by cases hm
  peak _ := rfl
  loadedPeak _ := rfl
  confirmed _ := rfl

/-- A message goes to Ben and Carl, and what became of it is written. -/
def sendsToBoth : List GroupDeliveryAct :=
  [.send (JsObject.ofFields [("kind", .str "chat"), ("content", .str "Hallo"),
      ("messageId", .str "m1")]) ["ben", "carl"],
    .append false, .delivered (fun _ => true) 5, .land 0 false, .land 0 false]

def delivered : Json := .obj [("status", .str "delivered"), ("receivedAt", .num 7)]

def landsTwice : List GroupDeliveryAct := [.land 0 false, .land 0 false]

theorem delivery_monotone_ben : ∃ acts s', Run step Orderly unsent acts s' ∧ s'.confirmed "ben" = 1 ∧
    Monotone s' := by
  have hexec : (exec step unsent sendsToBoth).any fun s₁ => (s₁.sending matches .ended) &&
      s₁.copies.stored.isSome && s₁.copies.patches.isEmpty &&
      (s₁.copies.loaded.any fun m => m.field "from" = .str "self" && rank m "ben" = 0) &&
      (exec step s₁ (.receipt "ben" delivered 7 :: landsTwice)).any fun s' =>
        s'.confirmed "ben" = 1 := by decide +kernel
  obtain ⟨s₁, hs₁, hexec⟩ := (Option.any_eq_true _ _).mp hexec
  simp only [Bool.and_eq_true, List.isEmpty_iff] at hexec
  obtain ⟨⟨⟨⟨hover, hsome⟩, hpatches⟩, hloaded⟩, hrest⟩ := hexec
  obtain ⟨s', hs', hconfirmed⟩ := (Option.any_eq_true _ _).mp hrest
  obtain ⟨s₂, hreceipt, hlands⟩ := Option.bind_eq_some_iff.mp hs'
  obtain ⟨m, hm, hknown⟩ := (Option.any_eq_true _ _).mp hloaded
  simp only [Bool.and_eq_true, decide_eq_true_eq] at hknown
  have horderly : Orderly s₁ (.receipt "ben" delivered 7) := by
    refine ⟨m, hm, hknown.1, fun _ => ⟨hsome, ?_, ?_, by simp [hpatches]⟩⟩
    · split at hover
      next h => exact h
      next => cases hover
    · rw [hknown.2]
      exact Nat.zero_le _
  have hfirst : Run step Orderly unsent sendsToBoth s₁ :=
    .of_exec_of_forall (by simp [sendsToBoth, Orderly]) hs₁
  have hlast : Run step Orderly s₂ landsTwice s' :=
    .of_exec_of_forall (by simp [landsTwice, Orderly]) hlands
  have hrun := hfirst.append (.cons horderly hreceipt hlast)
  exact ⟨_, s', hrun, of_decide_eq_true hconfirmed, delivery_monotone start_unsent hrun⟩

/-- Ben's receipt and Carl's are processed at once. -/
theorem receipt_lost : ¬ ∀ s acts s', Start s → FreeRun step s acts s' → Monotone s' := by
  intro h
  have hexec : (exec step unsent (sendsToBoth ++ [.receipt "ben" delivered 7,
      .receipt "carl" delivered 7] ++ landsTwice ++ landsTwice)).any fun s =>
        s.confirmed "ben" = 1 && rankIn s.copies.stored "ben" = 0 := by decide +kernel
  obtain ⟨s', hs', hlost⟩ := (any_eq_true _ _).mp hexec
  simp only [Bool.and_eq_true, decide_eq_true_eq] at hlost
  obtain ⟨-, -, hkept, -⟩ := h unsent _ s' start_unsent (.of_exec hs') "ben"
  rw [hlost.1, hlost.2] at hkept
  exact absurd hkept (by decide)

end GroupDelivery
end Bluetalk.Chat

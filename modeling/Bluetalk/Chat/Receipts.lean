import Bluetalk.Chat.Inbound
import Bluetalk.Theory.Run

/-!
# Receipts of messages

A device that receives direct messages and messages of its groups, in any order, while messages that
were received earlier are being stored. Whatever else happens on the device may change what is stored
and loaded, the groups and the blocked contacts.

A copy of a direct message that is loaded or stored already is not acknowledged; a group message is
acknowledged before it is stored.
-/

open List Option

namespace Bluetalk.Storage

def Backend.messageIdOf : Backend → CloudAccount.Message → Except StorageError (Option String)
  | .web => Idb.messageIdOf
  | .desktop => Database.messageIdOf

namespace Backend

variable {b : Backend} {t t' : MessageTable} {peerId uuid : String} {m : CloudAccount.Message}
  {now : Int}

/-- The store takes the message: its ids are valid, it is not too large, and its conversation has no
row of its id. -/
def Takes (b : Backend) (t : MessageTable) (peerId : String) (m : CloudAccount.Message)
    (uuid : String) : Prop :=
  ∃ key id, b.peerKey peerId = .ok key ∧ b.messageIdOf m = .ok id ∧ ensureSize m = .ok () ∧
    ∀ r ∈ t.chat key, r.storageId ≠ id.getD ("anonymous-" ++ uuid)

theorem insertRow_eq {key storageId : String} {id : Option String} {ts : Int} :
    t.insertRow key id storageId ts m =
      if ∃ r ∈ t.chat key, r.storageId = storageId then (t, false)
      else (⟨t.rows ++ [⟨t.lastSeq + 1, key, id, storageId, ts, m⟩], t.lastSeq + 1⟩, true) := by
  refine if_congr ?_ rfl rfl
  simp only [MessageTable.chat, List.any_eq_true, List.mem_filter, decide_eq_true_eq, and_assoc]

theorem append_cases :
    (∃ e, b.append t peerId m uuid now = .error e ∧
      ∀ key id, b.peerKey peerId = .ok key → b.messageIdOf m = .ok id → ensureSize m ≠ .ok ()) ∨
    ∃ key id ts, b.peerKey peerId = .ok key ∧ b.messageIdOf m = .ok id ∧ ensureSize m = .ok () ∧
      b.append t peerId m uuid now =
        .ok (t.insertRow key id (id.getD ("anonymous-" ++ uuid)) ts m) := by
  cases b with
  | web =>
    simp only [append, Idb.append, peerKey, messageIdOf, bind, Except.bind, pure, Except.pure]
    cases Idb.validatePeerId peerId with
    | error e => exact .inl ⟨e, rfl, by rintro _ _ ⟨⟩⟩
    | ok key =>
      cases hsize : ensureSize m with
      | error e => exact .inl ⟨e, rfl, by rintro _ _ - - ⟨⟩⟩
      | ok =>
        cases Idb.messageIdOf m with
        | error e => exact .inl ⟨e, rfl, by rintro _ _ - ⟨⟩⟩
        | ok id => exact .inr ⟨key, id, _, rfl, rfl, rfl, rfl⟩
  | desktop =>
    simp only [append, Database.appendMessage, peerKey, messageIdOf, bind, Except.bind, pure,
      Except.pure]
    cases Database.validatePeerStorageId peerId with
    | error e => exact .inl ⟨e, rfl, by rintro _ _ ⟨⟩⟩
    | ok key =>
      cases Database.messageIdOf m with
      | error e => exact .inl ⟨e, rfl, by rintro _ _ - ⟨⟩⟩
      | ok id =>
        cases hsize : ensureSize m with
        | error e => exact .inl ⟨e, rfl, by rintro _ _ - - ⟨⟩⟩
        | ok => exact .inr ⟨key, id, _, rfl, rfl, rfl, rfl⟩

theorem takes_iff : b.Takes t peerId m uuid ↔ ∃ t', b.append t peerId m uuid now = .ok (t', true) := by
  obtain ⟨e, he, hrefused⟩ | ⟨key, id, ts, hkey, hid, hsize, happend⟩ :=
    @append_cases b t peerId uuid m now
  · constructor
    · rintro ⟨key, id, hkey, hid, hsize, -⟩
      exact absurd hsize (hrefused key id hkey hid)
    · rintro ⟨t', ht'⟩
      rw [he] at ht'
      cases ht'
  · rw [happend, insertRow_eq]
    constructor
    · rintro ⟨key', id', hkey', hid', -, hfree⟩
      obtain rfl := Except.ok.inj (hkey.symm.trans hkey')
      obtain rfl := Except.ok.inj (hid.symm.trans hid')
      rw [if_neg]
      · exact ⟨_, rfl⟩
      · rintro ⟨r, hr, heq⟩
        exact hfree r hr heq
    · rintro ⟨t', ht'⟩
      split at ht'
      · cases ht'
      · next hfree =>
        refine ⟨key, id, hkey, hid, hsize, fun r hr heq => hfree ⟨r, hr, heq⟩⟩

theorem mem_chat_of_append (h : b.append t peerId m uuid now = .ok (t', true)) :
    ∃ key, b.peerKey peerId = .ok key ∧ ∃ r ∈ t'.chat key, r.value = m := by
  obtain ⟨e, he, -⟩ | ⟨key, id, ts, hkey, -, -, happend⟩ :=
    @append_cases b t peerId uuid m now
  · rw [he] at h
    cases h
  rw [happend, insertRow_eq] at h
  split at h
  · cases h
  · obtain ⟨rfl, -⟩ := Prod.mk.inj (Except.ok.inj h)
    refine ⟨key, hkey, _, mem_filter.mpr ⟨mem_append_right _ mem_cons_self, ?_⟩, rfl⟩
    exact decide_eq_true rfl

end Backend
end Bluetalk.Storage

namespace Bluetalk.Chat
open CloudAccount Storage Groups

/-- A client that receives, with the messages it is about to store -/
structure Reception where
  client : Client
  tasks : List StoreTask
  /-- The direct messages that have been received: who sent them, and under which id. -/
  copies : List (String × Json)
  /-- The receipts that went out while the message was not stored -/
  early : List (String × String × Json)

inductive ReceptionAct
  | arrive (now : Int) (newId : String) (a : Arrival)
  | store (k : Nat) (uuid : String) (now : Int) (fails : Bool)
  | other (messages : MessageTable) (cache : String → List Message) (groups : List Group)
      (blocked : List String)

/-- The direct message that a receipt is for -/
def directReceipt (x : String × Json) : Option (String × Json) :=
  if x.2.get "kind" = .str deliveryReceiptKind then some (x.1, x.2.get "refMessageId") else none

/-- The message that a receipt is for: its conversation, its sender and its id -/
def receiptOf (x : String × Json) : Option (String × String × Json) :=
  if x.2.get "kind" = .str deliveryReceiptKind then some (x.1, x.1, x.2.get "refMessageId")
  else if x.2.get "kind" = .str groupReceiptKind && (x.2.get "refMessageId").truthy then
    some ((x.2.get "groupId").stringOrEmpty, x.1, x.2.get "refMessageId")
  else none

namespace Client

/-- The stored history has the message that the sender sent under this id. -/
def hasStored (x : String × String × Json) (c : Client) : Bool :=
  match c.backend.peerKey x.1 with
  | .error _ => false
  | .ok key => (c.messages.chat key).any fun r =>
      r.value.field "messageId" = x.2.2 && r.value.field "from" = .str x.2.1

/-- The receipts that have gone out since -/
def receiptsSince (before after : Client) : List (String × String × Json) :=
  (after.device.sent.drop before.device.sent.length).filterMap receiptOf

/-- A direct message that may be stored, from a contact who is not blocked -/
def directCopy (now : Int) (newId : String) (a : Arrival) (c : Client) : Option (String × Json) :=
  match a.normalized now newId with
  | none => none
  | some (m, _) =>
    if !c.isBlocked a.fromId && a.fromId ≠ "" && isStoreableChatKind (m.field "kind") then
      some (a.fromId, m.field "messageId")
    else none

end Client

/-- A direct message, or a message of a group -/
def isMessage (now : Int) (newId : String) (a : Arrival) : Bool :=
  (a.normalized now newId).all fun x =>
    isStoreableChatKind (x.1.field "kind") || x.1.field "kind" = .str groupMessageKind

namespace Reception

/-- What went out while the message was not stored is noted. -/
def goOn (s : Reception) (c : Client) (tasks : List StoreTask) (copies : List (String × Json)) :
    Reception :=
  { client := c
    tasks := tasks
    copies := copies
    early := s.early ++ (s.client.receiptsSince c).filter fun x => !c.hasStored x }

def step (s : Reception) : ReceptionAct → Option Reception
  | .arrive now newId a =>
    if newId ≠ "" && isMessage now newId a then
      let received := s.client.receive now newId a
      some (s.goOn received.1 (s.tasks ++ received.2.toList)
        (s.copies ++ (s.client.directCopy now newId a).toList))
    else none
  | .store k uuid now fails =>
    match s.tasks[k]? with
    | none => none
    | some task => some (s.goOn (s.client.store task uuid now fails) (s.tasks.eraseIdx k) s.copies)
  | .other messages cache groups blocked =>
    some { s with client := { s.client with
      messages := messages
      cache := cache
      blocked := blocked
      device := { s.client.device with groups := groups } } }

/-- The receipts of direct messages that have gone out -/
def receipts (s : Reception) : List (String × Json) := s.client.device.sent.filterMap directReceipt

/-- The direct messages that will be acknowledged once they are stored -/
def pending (s : Reception) : List (String × Json) :=
  s.tasks.filterMap fun task => task.receipt.bind directReceipt

/-- Every copy of a direct message has been acknowledged, or is about to be stored. -/
def Acknowledged (s : Reception) : Prop := s.copies.Perm (s.receipts ++ s.pending)

/-- Whatever was acknowledged was stored. -/
def StoredFirst (s : Reception) : Prop := s.early = []

structure Start (s : Reception) : Prop where
  tasks : s.tasks = []
  acknowledged : s.Acknowledged
  storedFirst : s.StoredFirst

/-- What a message is checked for is in order, it is not loaded yet, and the store takes it. -/
def Answerable (s : Reception) : ReceptionAct → Prop
  | .arrive now newId a => ∀ m encrypted, a.normalized now newId = some (m, encrypted) →
    (s.client.directCopy now newId a).isSome →
      (checkContent m).isSome ∧ s.client.isLoaded a.fromId (m.field "messageId") = false
  | .store k uuid _ fails => ∀ task, s.tasks[k]? = some task → task.receipt.isSome →
    fails = false ∧
      s.client.backend.Takes s.client.messages task.chatId task.message uuid
  | .other .. => True

/-- A group message that is acknowledged is a copy of one of the sender's that is stored. -/
def Confirmed (s : Reception) : ReceptionAct → Prop
  | .arrive now newId a => ∀ m g message, a.normalized now newId = some (m, true) →
    s.client.isBlocked a.fromId = false → m.field "kind" = .str groupMessageKind →
    s.client.Accepts a.fromId m g message →
      s.client.hasStored (g.id, a.fromId, message.field "messageId")
  | .store .. | .other .. => True

/-! ### What one message does -/

section

variable {s s' : Reception} {act : ReceptionAct} {now : Int} {newId uuid : String} {a : Arrival}
  {c : Client} {x : String × Json} {task : StoreTask} {fails : Bool} {k : Nat}
  {tasks : List StoreTask}

def OfMessage (task : StoreTask) : Prop := ∀ x, task.receipt = some x →
  directReceipt x = some (task.chatId, task.message.field "messageId") ∧
    receiptOf x = some (task.chatId, task.chatId, task.message.field "messageId") ∧
    task.message.field "from" = .str task.chatId

theorem receive_of_directCopy (hid : newId ≠ "") (h : c.directCopy now newId a = some x) :
    ∃ m encrypted, a.normalized now newId = some (m, encrypted) ∧ x = (a.fromId, m.field "messageId") ∧
      c.receive now newId a =
        (c, if c.isLoaded a.fromId (m.field "messageId") then none
          else (checkContent m).map fun checked => ⟨a.fromId, checked,
            some (a.fromId, deliveryReceipt (m.field "messageId") now c.displayName)⟩) := by
  rw [Client.directCopy] at h
  split at h
  · cases h
  next m encrypted hnormalized =>
  split at h
  next hcopy =>
    simp only [Bool.and_eq_true, Bool.not_eq_true', decide_eq_true_eq] at hcopy
    obtain ⟨⟨hblocked, hfrom⟩, hkind⟩ := hcopy
    refine ⟨m, encrypted, hnormalized, (some.inj h).symm, ?_⟩
    rw [Client.receive_of_storeable hnormalized hblocked hkind,
      Client.receiveDirect_eq (Arrival.truthy_messageId hnormalized hid) hfrom hkind]
  · cases h

theorem directReceipts_receive (hmessage : isMessage now newId a)
    (h : c.directCopy now newId a = none) :
    (c.receive now newId a).1.device.sent.filterMap directReceipt =
      c.device.sent.filterMap directReceipt ∧
    ∀ task ∈ (c.receive now newId a).2, task.receipt = none := by
  cases hblocked : c.isBlocked a.fromId with
  | true =>
    rw [Client.receive, hblocked, if_pos rfl]
    refine ⟨?_, fun task htask => by cases htask⟩
    rw [Client.refuse]
    split
    · rw [Client.send, Device.transmit, filterMap_append]
      exact append_nil _
    · rfl
  | false =>
    cases hnormalized : a.normalized now newId with
    | none =>
      rw [Client.receive, hblocked, hnormalized]
      exact ⟨rfl, fun task htask => by cases htask⟩
    | some x =>
      obtain ⟨m, encrypted⟩ := x
      rw [isMessage, hnormalized, all_some, Bool.or_eq_true] at hmessage
      obtain hkind | hkind := hmessage
      · -- a direct message that nobody sent
        rw [Client.receive_of_storeable hnormalized hblocked hkind]
        refine ⟨rfl, fun task htask => ?_⟩
        have hfrom : (a.fromId ≠ "") = False := by
          rw [Client.directCopy, hnormalized] at h
          simpa [hblocked, hkind] using h
        rw [Client.receiveDirect] at htask
        split at htask
        · cases htask
        simp only [hfrom, decide_false, Bool.and_false, Bool.false_and, Bool.false_eq_true,
          if_false] at htask
        split at htask
        · cases htask
        · obtain rfl := some.inj htask
          rfl
      · rw [Client.receive_of_groupMessage hnormalized hblocked (of_decide_eq_true hkind)]
        cases encrypted with
        | false => exact ⟨rfl, fun task htask => by cases htask⟩
        | true =>
          rw [if_pos rfl]
          obtain ⟨g, message, -, heq⟩ | ⟨-, c', heq, hdevice⟩ :=
            Client.receiveGroupMessage_cases now a.fromId m c
          · rw [heq]
            refine ⟨?_, fun task htask => ?_⟩
            · rw [Client.send, Device.transmit, filterMap_append]
              exact append_nil _
            · obtain rfl := some.inj htask
              rfl
          · rw [heq, hdevice]
            exact ⟨rfl, fun task htask => by cases htask⟩

theorem store_of_takes {messages : MessageTable}
    (h : c.backend.append c.messages task.chatId task.message uuid now = .ok (messages, true)) :
    ∃ cache, c.store task uuid now false =
      match task.receipt with
      | none => { c with messages := messages, cache := cache }
      | some (peerId, receipt) =>
        Client.send peerId receipt { c with messages := messages, cache := cache } := by
  refine ⟨Function.update c.cache task.chatId (c.cache task.chatId ++ [task.message]), ?_⟩
  rw [Client.store, if_neg Bool.false_ne_true]
  split
  · next hstored => cases hstored.symm.trans h
  · next hstored => cases hstored.symm.trans h
  · next hstored =>
    cases hstored.symm.trans h
    rfl

theorem store_of_not_takes
    (h : ¬ (fails = false ∧ c.backend.Takes c.messages task.chatId task.message uuid)) :
    c.store task uuid now fails = c := by
  rw [Client.store]
  cases fails with
  | true => rfl
  | false =>
    rw [if_neg Bool.false_ne_true]
    split
    · rfl
    · rfl
    next messages happend => exact absurd ⟨rfl, Backend.takes_iff.mpr ⟨messages, happend⟩⟩ h

/-! ### Every copy is acknowledged -/

def Inv (s : Reception) : Prop := ∀ task ∈ s.tasks, OfMessage task

theorem ofMessage_of_none (h : task.receipt = none) : OfMessage task := by
  intro x hx
  rw [h] at hx
  cases hx

theorem ofMessage_receive (hid : newId ≠ "") (hmessage : isMessage now newId a)
    (htask : task ∈ (c.receive now newId a).2) : OfMessage task := by
  cases hcopy : c.directCopy now newId a with
  | none => exact ofMessage_of_none ((directReceipts_receive hmessage hcopy).2 task htask)
  | some x =>
    obtain ⟨m, encrypted, hnormalized, -, hreceive⟩ := receive_of_directCopy hid hcopy
    rw [hreceive] at htask
    split at htask
    · cases htask
    obtain ⟨checked, hcheck, rfl⟩ := mem_map.mp htask
    intro x hx
    obtain rfl := some.inj hx
    have hsame : checked.field "messageId" = m.field "messageId" :=
      field_checkContent hcheck (by decide)
    have hfrom : checked.field "from" = .str a.fromId :=
      (field_checkContent hcheck (by decide)).trans (Arrival.from_normalized hnormalized)
    rw [hsame]
    exact ⟨rfl, rfl, hfrom⟩

theorem step_arrive (h : s.step (.arrive now newId a) = some s') :
    newId ≠ "" ∧ isMessage now newId a ∧
      s' = s.goOn (s.client.receive now newId a).1 (s.tasks ++ (s.client.receive now newId a).2.toList)
        (s.copies ++ (s.client.directCopy now newId a).toList) := by
  rw [step] at h
  split at h
  next hguard =>
    rw [Bool.and_eq_true] at hguard
    exact ⟨of_decide_eq_true hguard.1, hguard.2, (some.inj h).symm⟩
  · cases h

theorem step_store (h : s.step (.store k uuid now fails) = some s') :
    ∃ task, s.tasks[k]? = some task ∧
      s' = s.goOn (s.client.store task uuid now fails) (s.tasks.eraseIdx k) s.copies := by
  rw [step] at h
  split at h
  · cases h
  next task htask => exact ⟨task, htask, (some.inj h).symm⟩

theorem Inv.step (h : s.Inv) (hstep : s.step act = some s') : s'.Inv := by
  cases act with
  | arrive now newId a =>
    obtain ⟨hid, hmessage, rfl⟩ := step_arrive hstep
    intro task htask
    obtain htask | htask := mem_append.mp htask
    · exact h task htask
    · exact ofMessage_receive hid hmessage (mem_toList.mp htask)
  | store k uuid now fails =>
    obtain ⟨task, -, rfl⟩ := step_store hstep
    intro task htask
    exact h task (mem_of_mem_eraseIdx htask)
  | other messages cache groups blocked =>
    obtain rfl := some.inj hstep
    exact h

theorem receipts_store_of_none (h : task.receipt = none) :
    (c.store task uuid now fails).device = c.device := by
  by_cases hstored : fails = false ∧ c.backend.Takes c.messages task.chatId task.message uuid
  · obtain ⟨rfl, htakes⟩ := hstored
    obtain ⟨messages, happend⟩ := Backend.takes_iff.mp htakes
    obtain ⟨cache, hstore⟩ := @store_of_takes now _ _ _ _ happend
    rw [hstore, h]
  · rw [store_of_not_takes hstored]

theorem pending_append {o : Option StoreTask} :
    (tasks ++ o.toList).filterMap (fun task => task.receipt.bind directReceipt) =
      tasks.filterMap (fun task => task.receipt.bind directReceipt) ++
        (o.bind fun task => task.receipt.bind directReceipt).toList := by
  rw [filterMap_append]
  congr 1
  cases o with
  | none => rfl
  | some task => cases h : task.receipt.bind directReceipt <;> simp [h]

theorem pending_eraseIdx (h : tasks[k]? = some task) :
    (tasks.filterMap fun task => task.receipt.bind directReceipt).Perm
      ((task.receipt.bind directReceipt).toList ++
        (tasks.eraseIdx k).filterMap fun task => task.receipt.bind directReceipt) := by
  obtain ⟨hk, rfl⟩ := List.getElem?_eq_some_iff.mp h
  refine ((List.getElem_cons_eraseIdx_perm hk).filterMap _).symm.trans ?_
  rw [filterMap_cons]
  cases tasks[k].receipt.bind directReceipt <;> exact .refl _

theorem acknowledged_arrive (h : s.Acknowledged) (hstep : s.step (.arrive now newId a) = some s') :
    s'.Acknowledged ↔ s.Answerable (.arrive now newId a) := by
  obtain ⟨hid, hmessage, rfl⟩ := step_arrive hstep
  simp only [Acknowledged, receipts, pending, goOn, Answerable] at h ⊢
  rw [pending_append]
  cases hcopy : s.client.directCopy now newId a with
  | none =>
    obtain ⟨hsent, htasks⟩ := directReceipts_receive hmessage hcopy
    have hnone : ((s.client.receive now newId a).2.bind fun task =>
        task.receipt.bind directReceipt) = none := by
      cases htask : (s.client.receive now newId a).2 with
      | none => rfl
      | some task =>
        rw [bind_some, htasks task htask]
        rfl
    rw [hsent, hnone, toList_none, append_nil, append_nil]
    refine iff_of_true h ?_
    intro m encrypted _ hsome
    cases hsome
  | some x =>
    obtain ⟨m, encrypted, hnormalized, rfl, hreceive⟩ := receive_of_directCopy hid hcopy
    rw [hreceive]
    constructor
    · intro hperm m' encrypted' hnormalized' _
      obtain ⟨rfl, rfl⟩ := Prod.mk.inj (some.inj (hnormalized.symm.trans hnormalized'))
      -- a copy that is dropped is one more than what is answered
      have hlength := h.length_eq
      have hlength' := hperm.length_eq
      rw [length_append] at hlength
      split at hlength'
      · simp at hlength'
        omega
      next hloaded =>
      cases hcheck : checkContent m with
      | none =>
        rw [hcheck] at hlength'
        simp at hlength'
        omega
      | some checked => exact ⟨rfl, by simpa using hloaded⟩
    · intro hok
      obtain ⟨hcheck, hloaded⟩ := hok m encrypted hnormalized rfl
      obtain ⟨checked, hchecked⟩ := isSome_iff_exists.mp hcheck
      rw [hloaded, if_neg Bool.false_ne_true, hchecked, map_some, bind_some,
        bind_some, ← append_assoc]
      exact h.append_right _

theorem acknowledged_store (hinv : s.Inv) (h : s.Acknowledged)
    (hstep : s.step (.store k uuid now fails) = some s') :
    s'.Acknowledged ↔ s.Answerable (.store k uuid now fails) := by
  obtain ⟨task, htask, rfl⟩ := step_store hstep
  have hperm := pending_eraseIdx htask
  simp only [Acknowledged, receipts, pending, goOn, Answerable] at h ⊢
  cases hreceipt : task.receipt with
  | none =>
    rw [hreceipt] at hperm
    rw [receipts_store_of_none hreceipt]
    refine iff_of_true (h.trans (hperm.append_left _)) fun task' htask' hsome => ?_
    obtain rfl := some.inj (htask.symm.trans htask')
    rw [hreceipt] at hsome
    cases hsome
  | some x =>
    have hx := (hinv task (mem_of_getElem? htask) x hreceipt).1
    rw [hreceipt, bind_some, hx, toList_some] at hperm
    by_cases hstored : fails = false ∧
        s.client.backend.Takes s.client.messages task.chatId task.message uuid
    · have hok := hstored
      obtain ⟨rfl, htakes⟩ := hstored
      obtain ⟨messages, happend⟩ := Backend.takes_iff.mp htakes
      obtain ⟨cache, hstore⟩ := @store_of_takes now _ _ _ _ happend
      refine iff_of_true ?_ fun task' htask' _ => ?_
      · rw [hstore, hreceipt]
        dsimp only [Client.send, Device.transmit]
        rw [filterMap_append, filterMap_cons_some hx, filterMap_nil, append_assoc]
        exact h.trans (hperm.append_left _)
      · obtain rfl := some.inj (htask.symm.trans htask')
        exact hok
    · rw [store_of_not_takes hstored]
      refine iff_of_false (fun hacknowledged => ?_) fun hok => ?_
      · have hlength := (h.trans (hperm.append_left _)).length_eq
        have hlength' := hacknowledged.length_eq
        rw [length_append] at hlength'
        simp at hlength
        omega
      · exact hstored (hok task htask (by rw [hreceipt]; rfl))

theorem acknowledged_step (hinv : s.Inv) (h : s.Acknowledged) (hstep : s.step act = some s') :
    s'.Acknowledged ↔ s.Answerable act := by
  cases act with
  | arrive now newId a => exact acknowledged_arrive h hstep
  | store k uuid now fails => exact acknowledged_store hinv h hstep
  | other messages cache groups blocked =>
    obtain rfl := some.inj hstep
    exact iff_of_true h trivial

theorem inv_of_start (h : s.Start) : s.Inv := by
  intro task htask
  rw [h.tasks] at htask
  cases htask

/-- All copies of direct messages are acknowledged exactly as long as each of them is in order, not
loaded when it arrives, and taken by the store. -/
theorem copies_acknowledged {acts : List ReceptionAct} (hstart : s.Start)
    (h : FreeRun step s acts s') :
    Always step Acknowledged s acts ↔ Run step Answerable s acts s' :=
  Run.always_iff Inv.step acknowledged_step h (inv_of_start hstart) hstart.acknowledged

end

/-! A message of a contact that has nothing stored yet, and its second copy -/

def choir : Group :=
  ⟨"group:choir-2024", 1, "Chor", "", 0, "anna", 0,
    [⟨"anna", "Anna", .admin, .active, 0, none, none⟩,
      ⟨"ben", "Ben", .member, .active, 0, none, none⟩,
      ⟨"carl", "Carl", .member, .active, 0, none, none⟩]⟩

def annasClient : Client where
  device := { ownPeerId := "anna", groups := [choir] }
  backend := .web
  messages := ⟨[], 0⟩
  cache := fun _ => []
  blocked := []
  displayName := .str "Anna"

def quiet : Reception := ⟨annasClient, [], [], []⟩

theorem start_quiet : quiet.Start := ⟨rfl, .nil, rfl⟩

def greeting : Message :=
  JsObject.ofFields [("kind", .str "chat"), ("content", .str "Hallo"), ("messageId", .str "m1"),
    ("timestamp", .num 5)]

def greets : List ReceptionAct := [.arrive 7 "n" ⟨"ben", greeting, none⟩, .store 0 "u" 8 false]

theorem copies_acknowledged_greeting : ∃ s', FreeRun step quiet greets s' ∧
    (Always step Acknowledged quiet greets ↔ Run step Answerable quiet greets s') := by
  have hexec : (exec step quiet greets).isSome := by decide +kernel
  obtain ⟨s', hs'⟩ := isSome_iff_exists.mp hexec
  exact ⟨s', .of_exec hs', copies_acknowledged start_quiet (.of_exec hs')⟩

/-- Ben's receipt is lost, and he sends the message again. -/
theorem copy_not_acknowledged :
    ¬ ∀ s acts s', s.Start → FreeRun step s acts s' → s'.Acknowledged := by
  intro h
  have hexec : (exec step quiet (greets ++ [.arrive 9 "n" ⟨"ben", greeting, none⟩])).any
      fun s => s.copies.length ≠ (s.receipts ++ s.pending).length := by decide +kernel
  obtain ⟨s', hs', hlength⟩ := (any_eq_true _ _).mp hexec
  exact absurd (h quiet _ s' start_quiet (.of_exec hs')).length_eq (of_decide_eq_true hlength)

section

variable {s s' : Reception} {act : ReceptionAct} {now : Int} {newId uuid : String} {a : Arrival}
  {c : Client} {x : String × Json} {task : StoreTask} {fails : Bool} {c' : Client}

/-! ### What is acknowledged is stored -/

theorem hasStored_of_takes {messages : MessageTable} {cache : String → List Message}
    (hreceipt : task.message.field "from" = .str task.chatId)
    (h : c.backend.append c.messages task.chatId task.message uuid now = .ok (messages, true)) :
    Client.hasStored (task.chatId, task.chatId, task.message.field "messageId")
      { c with messages := messages, cache := cache } := by
  obtain ⟨key, hkey, r, hr, hvalue⟩ := Backend.mem_chat_of_append h
  rw [Client.hasStored, hkey]
  refine any_eq_true.mpr ⟨r, hr, ?_⟩
  rw [hvalue, hreceipt]
  simp

theorem receiptsSince_of_same (h : c'.device = c.device) : c.receiptsSince c' = [] := by
  rw [Client.receiptsSince, h, drop_length, filterMap_nil]

theorem receiptsSince_send {peerId : String} {packet : Json}
    (h : c'.device = c.device) :
    c.receiptsSince (c'.send peerId packet) = (receiptOf (peerId, packet)).toList := by
  rw [Client.receiptsSince, Client.send, Device.transmit, h, drop_left]
  rfl

theorem storedFirst_goOn (h : s.StoredFirst) {tasks : List StoreTask}
    {copies : List (String × Json)} :
    (s.goOn c tasks copies).StoredFirst ↔ ∀ x ∈ s.client.receiptsSince c, c.hasStored x := by
  rw [StoredFirst, goOn, h, nil_append, filter_eq_nil_iff]
  simp

theorem storedFirst_arrive (h : s.StoredFirst)
    (hstep : s.step (.arrive now newId a) = some s') :
    s'.StoredFirst ↔ s.Confirmed (.arrive now newId a) := by
  obtain ⟨hid, hmessage, rfl⟩ := step_arrive hstep
  rw [storedFirst_goOn h, Confirmed]
  -- where nothing is sent that is a receipt, there is nothing to confirm
  have hsilent : ∀ {c : Client}, s.client.receiptsSince c = [] →
      ∀ x ∈ s.client.receiptsSince c, c.hasStored x := by
    intro c hnone x hx
    rw [hnone] at hx
    cases hx
  cases hblocked : s.client.isBlocked a.fromId with
  | true =>
    refine iff_of_true (hsilent ?_) fun m g message _ hfree => by cases hfree
    rw [Client.receive, hblocked, if_pos rfl, Client.refuse]
    split
    · exact receiptsSince_send rfl
    · exact receiptsSince_of_same rfl
  | false =>
    cases hnormalized : a.normalized now newId with
    | none =>
      refine iff_of_true (hsilent ?_) fun m g message hm => by cases hm
      rw [Client.receive, hblocked, hnormalized]
      exact receiptsSince_of_same rfl
    | some x =>
      obtain ⟨m, encrypted⟩ := x
      rw [isMessage, hnormalized, all_some, Bool.or_eq_true] at hmessage
      obtain hkind | hkind := hmessage
      · rw [Client.receive_of_storeable hnormalized hblocked hkind]
        refine iff_of_true (hsilent (receiptsSince_of_same rfl)) fun m' g message hm _ hgroup => ?_
        obtain ⟨rfl, -⟩ := Prod.mk.inj (some.inj hm)
        rw [hgroup] at hkind
        exact absurd hkind (by decide)
      rw [Client.receive_of_groupMessage hnormalized hblocked (of_decide_eq_true hkind)]
      cases encrypted with
      | false =>
        refine iff_of_true (hsilent (receiptsSince_of_same rfl)) fun m' g message hm => ?_
        exact absurd (Prod.mk.inj (some.inj hm)).2 Bool.false_ne_true
      | true =>
        rw [if_pos rfl]
        obtain ⟨g, message, haccepts, heq⟩ | ⟨hrefuses, c', heq, hdevice⟩ :=
          Client.receiveGroupMessage_cases now a.fromId m s.client
        · rw [heq]
          have hreceipt : receiptOf (a.fromId, groupMessageReceipt g.id (message.field "messageId")
              s.client.device.ownPeerId now) =
                some (g.id, a.fromId, message.field "messageId") := by
            have htruthy := haccepts.truthy_messageId
            rw [receiptOf, if_neg (by simp [groupMessageReceipt, Json.get, groupReceiptKind,
              deliveryReceiptKind]), if_pos]
            · rfl
            · rw [Bool.and_eq_true]
              exact ⟨decide_eq_true rfl, htruthy⟩
          rw [receiptsSince_send rfl, hreceipt]
          constructor
          · intro hstored m' g' message' hm _ _ haccepts'
            obtain ⟨rfl, -⟩ := Prod.mk.inj (some.inj hm)
            obtain ⟨rfl, rfl⟩ := haccepts.unique haccepts'
            exact hstored _ (mem_singleton.mpr rfl)
          · intro hconfirmed x hx
            obtain rfl := mem_singleton.mp hx
            exact hconfirmed m g message rfl rfl (of_decide_eq_true hkind) haccepts
        · rw [heq]
          refine iff_of_true (hsilent (receiptsSince_of_same hdevice)) ?_
          intro m' g message hm _ _ haccepts
          obtain ⟨rfl, -⟩ := Prod.mk.inj (some.inj hm)
          exact absurd haccepts (hrefuses g message)

theorem storedFirst_store {k : Nat} (hinv : s.Inv) (h : s.StoredFirst)
    (hstep : s.step (.store k uuid now fails) = some s') : s'.StoredFirst := by
  obtain ⟨task, htask, rfl⟩ := step_store hstep
  rw [storedFirst_goOn h]
  intro x hx
  by_cases hstored : fails = false ∧
      s.client.backend.Takes s.client.messages task.chatId task.message uuid
  · obtain ⟨rfl, htakes⟩ := hstored
    obtain ⟨messages, happend⟩ := Backend.takes_iff.mp htakes
    obtain ⟨cache, hstore⟩ := @store_of_takes now _ _ _ _ happend
    rw [hstore] at hx ⊢
    cases hreceipt : task.receipt with
    | none =>
      have hnone : s.client.receiptsSince { s.client with messages := messages, cache := cache } =
          [] := receiptsSince_of_same rfl
      rw [hreceipt] at hx
      rw [hnone] at hx
      cases hx
    | some y =>
      obtain ⟨-, hy, hfrom⟩ := hinv task (mem_of_getElem? htask) y hreceipt
      have hsome : s.client.receiptsSince (Client.send y.1 y.2
          { s.client with messages := messages, cache := cache }) = (receiptOf y).toList :=
        receiptsSince_send rfl
      rw [hreceipt] at hx
      rw [hsome, hy] at hx
      obtain rfl := mem_singleton.mp hx
      have hfound : Client.hasStored (task.chatId, task.chatId, task.message.field "messageId")
          { s.client with messages := messages, cache := cache } :=
        hasStored_of_takes hfrom happend
      exact hfound
  · rw [store_of_not_takes hstored, receiptsSince_of_same rfl] at hx
    cases hx

theorem storedFirst_step (hinv : s.Inv) (h : s.StoredFirst) (hstep : s.step act = some s') :
    s'.StoredFirst ↔ s.Confirmed act := by
  cases act with
  | arrive now newId a => exact storedFirst_arrive h hstep
  | store k uuid now fails => exact iff_of_true (storedFirst_store hinv h hstep) trivial
  | other messages cache groups blocked =>
    obtain rfl := some.inj hstep
    exact iff_of_true h trivial

/-- Receipts go out for stored messages only, exactly as long as every group message that is
acknowledged is a copy of one that is stored already. -/
theorem acknowledged_stored {acts : List ReceptionAct} (hstart : s.Start)
    (h : FreeRun step s acts s') :
    Always step StoredFirst s acts ↔ Run step Confirmed s acts s' :=
  Run.always_iff Inv.step storedFirst_step h (inv_of_start hstart) hstart.storedFirst

end

theorem acknowledged_stored_greeting : ∃ s', FreeRun step quiet greets s' ∧
    (Always step StoredFirst quiet greets ↔ Run step Confirmed quiet greets s') := by
  have hexec : (exec step quiet greets).isSome := by decide +kernel
  obtain ⟨s', hs'⟩ := isSome_iff_exists.mp hexec
  exact ⟨s', .of_exec hs', acknowledged_stored start_quiet (.of_exec hs')⟩

/-- A message of the group, under an id that its sender chose -/
def sung (fromId : String) : Arrival where
  fromId := fromId
  msg := JsObject.ofFields [("kind", .str encryptedKind)]
  inner := some (JsObject.ofFields [("kind", .str groupMessageKind),
    ("protocolVersion", .num groupProtocolVersion), ("groupId", .str choir.id),
    ("groupRevision", .num 1), ("messageId", .str "m1"), ("senderPeerId", .str fromId),
    ("timestamp", .num 5), ("payload", .obj [("kind", .str "chat"), ("content", .str fromId)])])

/-- Ben's message is stored, and Carl sends one under the same id. -/
theorem receipt_without_message :
    ¬ ∀ s acts s', s.Start → FreeRun step s acts s' → s'.StoredFirst := by
  intro h
  have hexec : (exec step quiet [.arrive 7 "n" (sung "ben"), .store 0 "u" 8 false,
      .arrive 9 "n" (sung "carl"), .store 0 "u" 10 false]).any
      fun s => (choir.id, "carl", .str "m1") ∈ s.early := by decide +kernel
  obtain ⟨s', hs', hearly⟩ := (any_eq_true _ _).mp hexec
  have hempty : s'.early = [] := h quiet _ s' start_quiet (.of_exec hs')
  rw [hempty] at hearly
  exact absurd (of_decide_eq_true hearly) not_mem_nil

end Reception
end Bluetalk.Chat

import Bluetalk.CloudAccount.Push

/-!
# Writes while a push is on its way

One device: writes to the store, the `enqueue` calls they are reported to and one push at a time,
each of them from one await to the next in any order. A push reads an entry when it builds its
operation and once more when the server has answered, for the snapshot; `acked` and `fresh` keep,
for the statements only, the values that the server took and the changes enqueued since the push
looked at the outbox.
-/

namespace Bluetalk.CloudAccount
open Storage Relay

/-- An `enqueue` of a store report between its awaits. -/
inductive EnqueueTask
  | started (key : String)
  | gotValue (key : String) (current : Json)
  | gotMeta (key : String) (current : Json) (snapshot : JsObject Json)
  deriving DecidableEq

/-- `pushOutbox` between its awaits. -/
inductive PushPhase (δ : Type)
  | idle
  /-- at the head of the `while` -/
  | loop
  /-- at the head of the `for` -/
  | filling (todo : List Change) (total : Nat) (sent : List (SentChange δ))
  /-- `buildOp` has read what it needs -/
  | built (change : Change) (op : Option Op) (todo : List Change) (total : Nat)
    (sent : List (SentChange δ))
  | sending (sent : List (SentChange δ))
  /-- `pushPrepared` after `too_large`: the items one by one -/
  | splitting (taken rest : List (SentChange δ))
  | readingMeta (sent : List (SentChange δ))
  | booking (rest sent : List (SentChange δ)) (next : SyncMeta)

structure PushRace (δ : Type) where
  dev : Device
  tasks : List EnqueueTask
  phase : PushPhase δ
  acked : List (String × String × Option Json)
  fresh : List Change

/-- What comes back from `api.push`. A request that failed may have been accepted. -/
inductive Reply
  | ok | tooLarge | failed (accepted : Bool)

inductive RaceAction
  | write (key : String) (value : Option Json)
  /-- the report of a change to the messages -/
  | report (body : ChangeBody) (now : Int)
  | enqueue (task : EnqueueTask) (now : Int)
  | start
  | stop
  | push (findMessage : String → String → Option Message) (now : Int)
  | reply (reply : Reply)

variable {δ : Type}

/-- The entry value that the server has when it has taken the item. -/
def SentChange.entry (x : SentChange δ) : List (String × String × Option Json) :=
  match x.op.body with
  | .storeEntry key id patch => [(key, id, patch)]
  | _ => []

def PushRace.start (d : Device) : PushRace δ := ⟨d, [], .idle, [], []⟩

/-- `memoryOutbox.removeSent(sent)` -/
def PushRace.removeSent (s : PushRace δ) (sent : List Change) : PushRace δ :=
  { s with dev := { s.dev with outbox := removeSentFromOutbox s.dev.outbox sent } }

/-- After the `for` of a batch. -/
def endFilling (s : PushRace δ) (total : Nat) (sent : List (SentChange δ)) : PushRace δ :=
  if !sent.isEmpty then { s with phase := .sending sent }
  else if s.dev.outbox.length = total then { s with phase := .idle }
  else { s with phase := .loop }

/-- `enqueue` up to its next await. -/
def enqueueOn (s : PushRace δ) (task : EnqueueTask) (now : Int) : PushRace δ :=
  let tasks := s.tasks.erase task
  match task with
  | .started key =>
    { s with tasks := .gotValue key ((s.dev.store.get? key).getD .null) :: tasks }
  | .gotValue key current => { s with tasks := .gotMeta key current (s.dev.syncMeta.snapshot key) :: tasks }
  | .gotMeta key current snapshot =>
    { s with
      tasks
      dev := { s.dev with outbox := enqueueStore s.dev.outbox snapshot key current now }
      fresh := enqueueStore s.fresh snapshot key current now }

section
variable [Blob δ]

/-- `pushOutbox` up to its next await. -/
def pushOn (sealItem : String → Op → PushItem δ) (findMessage : String → String → Option Message)
    (now : Int) (s : PushRace δ) : Option (PushRace δ) :=
  match s.phase with
  | .loop =>
    if s.dev.outbox.isEmpty then some { s with phase := .idle }
    else some { s with phase := .filling s.dev.outbox s.dev.outbox.length [], fresh := [] }
  | .filling [] total sent => some (endFilling s total sent)
  | .filling (c :: todo) total sent =>
    if pushBatch ≤ sent.length then some (endFilling s total sent)
    else some { s with phase := .built c (buildOp s.dev findMessage now c) todo total sent }
  | .built c none todo total sent =>
    some { s.removeSent [c] with phase := .filling todo total sent }
  | .built c (some op) todo total sent =>
    match sealWithinLimit sealItem (logicalKeyOf c) op with
    | none => some { s.removeSent [c] with phase := .filling todo total sent }
    | some item =>
      if fits (sent.map (·.item)) item then
        some { s with phase := .filling todo total (sent ++ [⟨c, op, item⟩]) }
      else if sent.isEmpty then some { s.removeSent [c] with phase := .filling todo total sent }
      else some (endFilling s total sent)
  | .readingMeta sent => some { s with phase := .booking sent sent s.dev.syncMeta }
  | .booking (x :: rest) sent next =>
    some { s with phase := .booking rest sent (book s.dev next x.change) }
  | .booking [] _ next =>
    some { s with dev := { s.dev with syncMeta := next }, phase := .loop }
  | .idle | .sending _ | .splitting _ _ => none

end

/-- `pushPrepared` once its next item is done with. -/
def splitOn (s : PushRace δ) (taken rest : List (SentChange δ)) : PushRace δ :=
  if rest.isEmpty then { s with phase := .readingMeta taken }
  else { s with phase := .splitting taken rest }

/-- The server has taken the items. -/
def PushRace.ack (s : PushRace δ) (sent : List (SentChange δ)) : PushRace δ :=
  { s with acked := s.acked ++ sent.flatMap (·.entry) }

/-- `pushPrepared` when an answer comes. -/
def replyOn (s : PushRace δ) (reply : Reply) : Option (PushRace δ) :=
  match s.phase, reply with
  | .sending sent, .ok =>
    some { (s.ack sent).removeSent (sent.map (·.change)) with phase := .readingMeta sent }
  | .sending [x], .tooLarge => some { s.removeSent [x.change] with phase := .readingMeta [x] }
  | .sending sent, .tooLarge => some { s with phase := .splitting [] sent }
  | .sending sent, .failed accepted =>
    some { if accepted then s.ack sent else s with phase := .idle }
  | .splitting taken (x :: rest), .ok =>
    some (splitOn ((s.ack [x]).removeSent [x.change]) (taken ++ [x]) rest)
  | .splitting taken (x :: rest), .tooLarge =>
    some (splitOn (s.removeSent [x.change]) (taken ++ [x]) rest)
  | .splitting _ (x :: _), .failed accepted =>
    some { if accepted then s.ack [x] else s with phase := .idle }
  | _, _ => none

def raceStep [Blob δ] (sealItem : String → Op → PushItem δ) (s : PushRace δ) :
    RaceAction → Option (PushRace δ)
  | .write key value =>
    some { s with
      dev := s.dev.write key value
      tasks := if key ∈ syncedStoreKeys then .started key :: s.tasks else s.tasks }
  | .report body now =>
    if isMessageChange body then
      some { s with
        dev := { s.dev with outbox := mergeOutbox s.dev.outbox ⟨0, body⟩ now }
        fresh := mergeOutbox s.fresh ⟨0, body⟩ now }
    else none
  | .enqueue task now => if task ∈ s.tasks then some (enqueueOn s task now) else none
  | .start =>
    match s.phase with
    | .idle => some { s with phase := .loop }
    | _ => none
  | .stop =>
    match s.phase with
    | .loop => some { s with phase := .idle }
    | _ => none
  | .push findMessage now => pushOn sealItem findMessage now s
  | .reply reply => replyOn s reply

end Bluetalk.CloudAccount

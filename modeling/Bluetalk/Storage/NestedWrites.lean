import Bluetalk.Storage.StoreOps

/-!
# Nested writes, transaction by transaction

A set or a delete of a nested key reads the row of the first segment, computes the next value and
writes it. In the browser each of these is a transaction of its own: between any two of them another
call may have its turn, and may have opened an account. On the desktop a call holds the lock on the
connection from the first to the last.
-/

namespace Bluetalk.Storage
open Reader

/-- A set or a delete of a nested key with the first segment `top`. -/
structure NestedWrite (top : String) where
  key : String
  path : List String
  /-- What is set: nothing is for a delete. -/
  value : Option Json
  nested : path ≠ []
  split : Database.splitKey key = .ok ⟨top, path⟩
  other : top ≠ "messages"

/-- Where a call stands: before a transaction, or at its end. -/
inductive WritePhase
  | ready
  | reading (db : String)
  | fallback
  | writing (next : Json)
  | remembering (peerId : String) (next : Json)
  | opening (peerId : String) (next : Json)
  | remembered (next : Json)
  | putting (db : String) (next : Json)
  | copying (next : Json)
  | done (answer : Except StoreError Bool)
  deriving DecidableEq

namespace NestedWrite

variable {top : String}

def op (w : NestedWrite top) : StoreOp :=
  match w.value with
  | some value => .set w.key value
  | none => .delete w.key

def checkSize (w : NestedWrite top) : Except StoreError Unit :=
  match w.value with
  | some value => IdbStore.ensureSize value maxStoreValueBytes "store value"
  | none => .ok ()

/-- What becomes of the row that was read, if it changes. -/
def next (w : NestedWrite top) (root : Option Json) : Option Json :=
  match w.value with
  | some value => some (Idb.setNested (.ofOption root) w.path value)
  | none => Idb.deleteNested (.ofOption root) w.path

/-- After the row is read: a delete that finds nothing is at its end. -/
def afterRead (w : NestedWrite top) (root : Option Json) : WritePhase :=
  match w.next root with
  | some next => .writing next
  | none => .done (.ok false)

/-- The account `kvPutRaw` remembers, if any. -/
def peerToRemember (top : String) (s : IdbStore) (next : Json) : Json :=
  if top = "cloudAccount" then next.get "peerId"
  else if top = "networkIdentity" then s.accountPeerId
  else .null

/-- One transaction of a call, with the code up to the next. -/
def advance (w : NestedWrite top) (s : IdbStore) : WritePhase → IdbStore × WritePhase
  | .ready =>
    match w.checkSize with
    | .error e => (s, .done (.error e))
    | .ok _ => (s.accountDb.1, .reading s.accountDb.2)
  | .reading db =>
    match s.row db top with
    | some value => (s, w.afterRead (some value))
    | none => if db ≠ sessionDb then (s, .fallback) else (s, w.afterRead none)
  | .fallback => (s, w.afterRead (s.row sessionDb top))
  | .writing next =>
    let trimmed := jsTrim (peerToRemember top s next).textOrEmpty
    if trimmed = "" ∨ Json.str trimmed = s.accountPeerId then (s, .remembered next)
    else ({ s with accountPeerId := .str trimmed }, .remembering trimmed next)
  | .remembering peerId next =>
    (s.putRow sessionDb "activePeerId" (.str peerId), .opening peerId next)
  | .opening peerId next =>
    ({ s with accountDbName := some ("bluetalk-web-" ++ peerId) }, .remembered next)
  | .remembered next => (s.accountDb.1, .putting s.accountDb.2 next)
  | .putting db next =>
    (s.putRow db top next,
      if top = "cloudAccount" ∧ (next.get "peerId").truthy ∧ db ≠ sessionDb then .copying next
      else .done (.ok true))
  | .copying next =>
    ((s.putRow sessionDb top next).putRow sessionDb "activePeerId" (next.get "peerId"),
      .done (.ok true))
  | .done answer => (s, .done answer)

end NestedWrite

/-- A store and the calls that share it. -/
structure Callers (ι : Type) where
  store : IdbStore
  phase : ι → WritePhase := fun _ => .ready

namespace Callers

variable {ι : Type} [DecidableEq ι] {top : String} (calls : ι → NestedWrite top)

/-- The call `i` has its turn. -/
def step (c : Callers ι) (i : ι) : Callers ι where
  store := ((calls i).advance c.store (c.phase i)).1
  phase := Function.update c.phase i ((calls i).advance c.store (c.phase i)).2

def run (c : Callers ι) (turns : List ι) : Callers ι := turns.foldl (step calls) c

end Callers

end Bluetalk.Storage

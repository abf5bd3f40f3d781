import Bluetalk.Js.Json
import Bluetalk.Js.Object
import Bluetalk.Theory.Run
import Bluetalk.Theory.Tasks

/-!
# The messages of the desktop's peer service

The read loop of `run_session` emits an event for each message. `ServiceSink::emit` of
`peer_service/mod.rs` spawns a task for every event, and `handle_peer_message` of
`peer_service/events.rs` does in that task what the message asks for. The tasks run in parallel:
any of them may do its next deed. The other events of the network are handled by tasks that do
nothing for a message, and the service lives as long as its network.
-/

open List Option

namespace Bluetalk.PeerService

def fileRequestKind : String := "bt2:file-request"
def fileResponseKind : String := "bt2:file-response"
def maxHostedFiles : Nat := 20
def maxTotalHostedFileBytes : Nat := 64 * 1024 * 1024

/-- A hosted file; `data` stands for its bytes in base64. -/
structure HostedFile where
  id : String
  name : String
  size : Nat
  mimeType : String
  data : String

inductive WireFrame
  | message (messageId : String) (sentAtMs : Int) (payload : Json)
  | ping (nonce : String)
  | pong (nonce : String)
  | close (reason : String)

/-- Whom a session is with. -/
structure Remote where
  peerId : String
  deviceKey : String

/-- What is done for a message. -/
inductive Deed
  | emit (channel : String) (event : Json)
  | answerFileRequest (fromPeerId : String) (payload : Json)
  /-- a response goes to the request that waits for it -/
  | resolveFileRequest (requestId : String) (payload : Json)
  deriving DecidableEq

/-- `Value::as_str`, with the default that the service uses. -/
def strOrEmpty : Json → String
  | .str s => s
  | _ => ""

/-- `map.entry(k).or_insert(v)` -/
def orInsert (k : String) (v : Json) (fields : List (String × Json)) : List (String × Json) :=
  if (fields.lookup k).isSome then fields else setField k v fields

/-- The event that the renderer receives for a message. -/
def messageEvent (remote : Remote) (messageId : String) (sentAtMs : Int) (payload : Json) : Json :=
  let event := match payload with
    | .obj map => map
    | other => [("content", other)]
  let event := setField "from" (.str remote.peerId) event
  let event :=
    if remote.deviceKey = "" then event else setField "fromDevice" (.str remote.deviceKey) event
  let event := orInsert "timestamp" (.num sentAtMs) event
  .obj (orInsert "transportMessageId" (.str messageId) event)

def handlePeerMessage (remote : Remote) (messageId : String) (sentAtMs : Int) (payload : Json) :
    List Deed :=
  let kind := strOrEmpty (payload.get "kind")
  if kind = fileRequestKind then [.answerFileRequest remote.peerId payload]
  else if kind = fileResponseKind then
    [.resolveFileRequest (strOrEmpty (payload.get "requestId")) payload]
  else
    let event := messageEvent remote messageId sentAtMs payload
    (if kind = "file-hosted" then [.emit "peer:file-offered" event] else []) ++
      [.emit "peer:message" event]

/-- The deeds for a frame: the read loop emits an event for a message only. -/
def frameDeeds (remote : Remote) : WireFrame → List Deed
  | .message messageId sentAtMs payload => handlePeerMessage remote messageId sentAtMs payload
  | .ping _ | .pong _ | .close _ => []

def isValidFileId (fileId : String) : Bool :=
  fileId.utf8ByteSize = 24 && fileId.toList.all fun c =>
    ('0' ≤ c && c ≤ '9') || ('a' ≤ c && c ≤ 'f') || ('A' ≤ c && c ≤ 'F')

/-- The oldest files go, until the others are within the bounds. -/
def evict : List HostedFile → List HostedFile
  | [] => []
  | file :: rest =>
    if (file :: rest).length > maxHostedFiles ∨
        ((file :: rest).map (·.size)).sum > maxTotalHostedFileBytes then evict rest
    else file :: rest

/-- `answer_file_request` up to its await. -/
def fileResponse (hosted : List HostedFile) (payload : Json) : Option Json :=
  let requestId := strOrEmpty (payload.get "requestId")
  let fileId := strOrEmpty (payload.get "fileId")
  if requestId = "" || requestId.utf8ByteSize > 64 || !isValidFileId fileId then none
  else
    match hosted.find? fun file => file.id = fileId with
    | some file => some (.obj [("kind", .str fileResponseKind), ("requestId", .str requestId),
        ("ok", .bool true), ("fileId", .str file.id), ("data", .str file.data),
        ("name", .str file.name), ("type", .str file.mimeType), ("size", .num file.size)])
    | none => some (.obj [("kind", .str fileResponseKind), ("requestId", .str requestId),
        ("ok", .bool false), ("fileId", .str fileId), ("error", .str "file_not_found")])

/-- A deed with the session and the place on it of the frame that it is done for. -/
structure Handled where
  session : Nat
  index : Nat
  deed : Deed
  deriving DecidableEq

inductive Effect
  | handle (h : Handled)
  /-- `network.send` of the answer to a file request -/
  | send (peerId : String) (response : Json)

structure Pump where
  hosted : List HostedFile := []
  pendingFileRequests : List String := []
  /-- the sessions whose read loop has ended -/
  ended : List Nat := []
  /-- the frames that were read, each with its session -/
  received : List (Nat × WireFrame) := []
  tasks : List (Task Nat Effect) := []
  handled : List Handled := []
  sent : List (String × Json) := []

inductive PumpAction
  | receive (session : Nat) (frame : WireFrame)
  /-- the read loop ends for another reason than a close frame -/
  | finish (session : Nat)
  | host (file : HostedFile)
  | request (requestId : String)
  /-- a request could not be sent -/
  | cancelRequest (requestId : String)
  /-- the task at `k` goes on -/
  | perform (k : Nat)

/-- The frames of a session among those that were read. -/
def framesOf (received : List (Nat × WireFrame)) (g : Nat) : List WireFrame :=
  received.filterMap fun r => if r.1 = g then some r.2 else none

/-- The deeds for frames of a session in the order on the wire, the first of them at place `i`. -/
def wireDeeds (remote : Remote) (g i : Nat) : List WireFrame → List Handled
  | [] => []
  | frame :: frames =>
    (frameDeeds remote frame).map (⟨g, i, ·⟩) ++ wireDeeds remote g (i + 1) frames

/-- What a session has still to be done for it. -/
def ofSession (g : Nat) : Effect → Option Handled
  | .handle h => if h.session = g then some h else none
  | .send _ _ => none

namespace Pump

variable (remoteOf : Nat → Remote)

def performEffect (s : Pump) : Effect → Pump × List Effect
  | .handle h =>
    let s := { s with handled := s.handled ++ [h] }
    match h.deed with
    | .emit _ _ => (s, [])
    | .answerFileRequest fromPeerId payload =>
      (s, ((fileResponse s.hosted payload).map (.send fromPeerId)).toList)
    | .resolveFileRequest requestId _ =>
      ({ s with pendingFileRequests := s.pendingFileRequests.filter (· ≠ requestId) }, [])
  | .send peerId response => ({ s with sent := s.sent ++ [(peerId, response)] }, [])

def step (s : Pump) : PumpAction → Option Pump
  | .receive g frame =>
    if g ∈ s.ended then none
    else
      let i := (framesOf s.received g).length
      let deeds := (frameDeeds (remoteOf g) frame).map (⟨g, i, ·⟩)
      some { s with
        received := s.received ++ [(g, frame)]
        ended := match frame with
          | .close _ => g :: s.ended
          | .message _ _ _ | .ping _ | .pong _ => s.ended
        tasks := Task.spawn s.tasks (some g) (deeds.map .handle) }
  | .finish g => some { s with ended := g :: s.ended }
  | .host file => some { s with hosted := evict (s.hosted ++ [file]) }
  | .request requestId => some { s with pendingFileRequests := requestId :: s.pendingFileRequests }
  | .cancelRequest requestId => some { s with
      pendingFileRequests := s.pendingFileRequests.filter (· ≠ requestId) }
  | .perform k =>
    match s.tasks[k]? with
    | some ⟨o, e :: rest⟩ =>
      let (s', follow) := s.performEffect e
      some { s' with tasks := Task.advance s.tasks k o (follow ++ rest) }
    | _ => none

/-- What the frames of a session ask for, in the order on the wire. -/
def wireOf (s : Pump) (g : Nat) : List Handled := wireDeeds (remoteOf g) g 0 (framesOf s.received g)

/-- What was done for a session, in the order it was done. -/
def handledOf (s : Pump) (g : Nat) : List Handled := s.handled.filter (·.session = g)

/-- What is still to be done for a session, in the order of the tasks. -/
def todoOf (s : Pump) (g : Nat) : List Handled := (Task.allTodo s.tasks).filterMap (ofSession g)

/-- Every session's messages are handled in the order in which they were on the wire. -/
def InOrder (s : Pump) : Prop := ∀ g, s.handledOf g <+: s.wireOf remoteOf g

/-- The task that goes on with a message is the oldest of its session that has anything to do for
a message. -/
def inTurn (s : Pump) : PumpAction → Bool
  | .perform k =>
    match s.tasks[k]? with
    | some ⟨_, .handle h :: _⟩ =>
      ((Task.allTodo (s.tasks.take k)).filterMap (ofSession h.session)).isEmpty
    | _ => true
  | _ => true

variable {remoteOf} {s s' : Pump} {g i k : Nat} {h : Handled} {remote : Remote} {frame : WireFrame}
  {frames : List WireFrame} {o : Option Nat} {e : Effect} {rest : List Effect} {a : PumpAction}
  {α : Type*}

/-! ## The deeds on the wire -/

theorem handlePeerMessage_nodup {messageId : String} {sentAtMs : Int}
    {payload : Json} : (handlePeerMessage remote messageId sentAtMs payload).Nodup := by
  simp only [handlePeerMessage]
  split
  · exact nodup_singleton _
  split
  · exact nodup_singleton _
  split <;> simp

theorem frameDeeds_nodup : (frameDeeds remote frame).Nodup := by
  cases frame with
  | message => exact handlePeerMessage_nodup
  | ping | pong | close => exact nodup_nil

theorem wireDeeds_append :
    wireDeeds remote g i (frames ++ [frame]) = wireDeeds remote g i frames ++
      (frameDeeds remote frame).map (⟨g, i + frames.length, ·⟩) := by
  induction frames generalizing i with
  | nil => simp [wireDeeds]
  | cons f frames ih =>
    rw [cons_append, wireDeeds, wireDeeds, ih, append_assoc, length_cons,
      Nat.add_assoc, Nat.add_comm 1]

theorem mem_wireDeeds (hmem : h ∈ wireDeeds remote g i frames) : h.session = g ∧ i ≤ h.index := by
  induction frames generalizing i with
  | nil => cases hmem
  | cons frame frames ih =>
    rcases mem_append.mp hmem with hmem | hmem
    · obtain ⟨deed, -, rfl⟩ := mem_map.mp hmem
      exact ⟨rfl, Nat.le_refl i⟩
    · obtain ⟨hg, hi⟩ := ih hmem
      exact ⟨hg, Nat.le_of_succ_le hi⟩

theorem wireDeeds_nodup :
    (wireDeeds remote g i frames).Nodup := by
  induction frames generalizing i with
  | nil => exact nodup_nil
  | cons frame frames ih =>
    refine nodup_append.mpr ⟨frameDeeds_nodup.map fun _ _ heq => ?_, ih, ?_⟩
    · exact (Handled.mk.inj heq).2.2
    · rintro h hmem h' hmem' rfl
      obtain ⟨deed, -, rfl⟩ := mem_map.mp hmem
      exact Nat.not_succ_le_self i (mem_wireDeeds hmem').2

theorem framesOf_append {received : List (Nat × WireFrame)} :
    framesOf (received ++ [(g, frame)]) i =
      framesOf received i ++ if g = i then [frame] else [] := by
  rw [framesOf, framesOf, filterMap_append]
  split <;> simp_all

theorem filterMap_ofSession {deeds : List Deed} :
    ((deeds.map (Handled.mk g i)).map Effect.handle).filterMap (ofSession k) =
      if g = k then deeds.map (Handled.mk g i) else [] := by
  rw [filterMap_map]
  split
  next hg =>
    have hsome : ofSession k ∘ Effect.handle ∘ Handled.mk g i = some ∘ Handled.mk g i := by
      funext d
      exact if_pos hg
    rw [filterMap_map, Function.comp_assoc, hsome, filterMap_eq_map]
  next hg =>
  rw [filterMap_eq_nil_iff]
  intro h hmem
  obtain ⟨deed, -, rfl⟩ := mem_map.mp hmem
  exact if_neg hg

/-! ## What was done and what is to be done -/

/-- What was done for a session and what is to be done for it are what the wire asks for, and the
tasks have it in the order on the wire. -/
structure Kept (remoteOf : Nat → Remote) (s : Pump) : Prop where
  perm : ∀ g, (s.wireOf remoteOf g).Perm (s.handledOf g ++ s.todoOf g)
  sublist : ∀ g, (s.todoOf g).Sublist (s.wireOf remoteOf g)

theorem Kept.empty : Kept remoteOf {} := ⟨fun _ => .nil, fun _ => .slnil⟩

theorem todoOf_eq (hk : s.tasks[k]? = some ⟨o, e :: rest⟩) : s.todoOf g =
      (Task.allTodo (s.tasks.take k)).filterMap (ofSession g) ++ (ofSession g e).toList ++
        (rest ++ Task.allTodo (s.tasks.drop (k + 1))).filterMap (ofSession g) := by
  rw [todoOf, Task.allTodo_eq hk, append_assoc, filterMap_append, append_assoc]
  congr 1
  rw [cons_append, filterMap_cons]
  cases ofSession g e <;> rfl

theorem performEffect_follow :
    (s.performEffect e).2.filterMap (ofSession g) = [] := by
  cases e with
  | send => rfl
  | handle h =>
    rw [performEffect]
    cases h.deed with
    | emit | resolveFileRequest => rfl
    | answerFileRequest fromPeerId payload =>
      dsimp only
      cases fileResponse s.hosted payload <;> rfl

theorem performEffect_received : (s.performEffect e).1.received = s.received := by
  cases e with
  | send => rfl
  | handle h =>
    rw [performEffect]
    cases h.deed <;> rfl

theorem performEffect_handled : (s.performEffect e).1.handled =
    match e with
    | .handle h => s.handled ++ [h]
    | .send _ _ => s.handled := by
  cases e with
  | send => rfl
  | handle h =>
    rw [performEffect]
    cases h.deed <;> rfl

/-- An effect leaves what is to be done for each session; that for a message is done for its own. -/
theorem perform_spec (hk : s.tasks[k]? = some ⟨o, e :: rest⟩) (h : s.step remoteOf (.perform k) = some s') (g : Nat) :
    s'.wireOf remoteOf g = s.wireOf remoteOf g ∧
    s'.handledOf g = s.handledOf g ++ (ofSession g e).toList ∧
    s'.todoOf g = (Task.allTodo (s.tasks.take k)).filterMap (ofSession g) ++
      (rest ++ Task.allTodo (s.tasks.drop (k + 1))).filterMap (ofSession g) := by
  simp only [step, hk] at h
  cases h
  refine ⟨?_, ?_, ?_⟩
  · exact congrArg (fun r => wireDeeds (remoteOf g) g 0 (framesOf r g)) performEffect_received
  · rw [handledOf, handledOf]
    refine (congrArg (List.filter _) performEffect_handled).trans ?_
    cases e with
    | send => exact (append_nil _).symm
    | handle h =>
      rw [filter_append, ofSession]
      by_cases hg : h.session = g <;> simp [hg]
  · refine (congrArg (List.filterMap _) Task.allTodo_advance).trans ?_
    rw [append_assoc, append_assoc, filterMap_append, filterMap_append,
      performEffect_follow, nil_append]

theorem receive_spec (h : s.step remoteOf (.receive g frame) = some s')
    (g' : Nat) : ∃ new, s'.wireOf remoteOf g' = s.wireOf remoteOf g' ++ new ∧
      s'.handledOf g' = s.handledOf g' ∧ s'.todoOf g' = s.todoOf g' ++ new := by
  simp only [step] at h
  split at h
  · cases h
  cases h
  refine ⟨if g = g' then
    (frameDeeds (remoteOf g) frame).map (⟨g, (framesOf s.received g).length, ·⟩) else [], ?_, rfl, ?_⟩
  · rw [wireOf, wireOf]
    refine (congrArg (wireDeeds (remoteOf g') g' 0) framesOf_append).trans ?_
    split
    next hg =>
      subst hg
      rw [wireDeeds_append, Nat.zero_add]
    next => rw [append_nil, append_nil]
  · refine (congrArg (List.filterMap _) Task.allTodo_spawn).trans ?_
    rw [filterMap_append, filterMap_ofSession]
    rfl

theorem Kept.step (H : s.Kept remoteOf) (h : s.step remoteOf a = some s') :
    s'.Kept remoteOf := by
  cases a with
  | receive g frame =>
    constructor <;> intro g' <;> obtain ⟨new, hwire, hhandled, htodo⟩ := receive_spec h g'
    · rw [hwire, hhandled, htodo, ← append_assoc]
      exact (H.perm g').append_right new
    · rw [hwire, htodo]
      exact (H.sublist g').append_right new
  | perform k =>
    rcases hk : s.tasks[k]? with _ | ⟨o, _ | ⟨e, rest⟩⟩
    · simp only [Pump.step, hk] at h
      cases h
    · simp only [Pump.step, hk] at h
      cases h
    constructor <;> intro g <;> obtain ⟨hwire, hhandled, htodo⟩ := perform_spec hk h g
    · have hperm := H.perm g
      rw [todoOf_eq hk] at hperm
      rw [hwire, hhandled, htodo, append_assoc]
      refine hperm.trans (List.Perm.append_left _ ?_)
      rw [append_assoc]
      exact perm_append_comm_assoc _ _ _
    have hsub := H.sublist g
    rw [todoOf_eq hk] at hsub
    rw [hwire, htodo]
    refine List.Sublist.trans ?_ hsub
    exact List.Sublist.append_right (sublist_append_left _ _) _
  | finish | host | request | cancelRequest =>
    cases h
    exact ⟨H.perm, H.sublist⟩

/-- Whatever the order of the tasks, each deed of a session is done once or still to be done. -/
theorem deeds_kept {acts : List PumpAction} : Always (step remoteOf) (Kept remoteOf) {} acts :=
  Run.always (fun H h => H.step h) .empty

theorem eq_of_perm_of_sublist {l done rest todo : List α} (hnodup : l.Nodup)
    (hl : l = done ++ rest) (hperm : l.Perm (done ++ todo)) (hsub : todo.Sublist l) :
    rest = todo := by
  rw [hl] at hperm hsub hnodup
  have hrest : rest.Perm todo := (perm_append_left_iff done).mp hperm
  obtain ⟨l₁, l₂, rfl, h₁, h₂⟩ := sublist_append_iff.mp hsub
  -- what is to be done is not among what was done
  have hnil : l₁ = [] := by
    refine eq_nil_iff_forall_not_mem.mpr fun a ha => ?_
    have hmem : a ∈ rest := hrest.mem_iff.mpr (mem_append_left _ ha)
    exact (nodup_append.mp hnodup).2.2 a (h₁.subset ha) a hmem rfl
  subst hnil
  exact (h₂.eq_of_length hrest.length_eq.symm).symm

theorem Kept.wireOf_eq (H : s.Kept remoteOf) (hg : s.handledOf g <+: s.wireOf remoteOf g) :
    s.wireOf remoteOf g = s.handledOf g ++ s.todoOf g := by
  obtain ⟨rest, hrest⟩ := hg
  rw [← hrest, eq_of_perm_of_sublist wireDeeds_nodup hrest.symm (H.perm g) (H.sublist g)]

theorem prefix_singleton_iff {a : α} {before after : List α}
    (hnodup : (before ++ a :: after).Nodup) : [a] <+: before ++ a :: after ↔ before = [] := by
  cases before with
  | nil => simp
  | cons b before =>
    refine iff_of_false (fun hpre => ?_) (cons_ne_nil b before)
    rw [cons_append, cons_prefix_cons] at hpre
    rw [← hpre.1, cons_append, nodup_cons] at hnodup
    exact hnodup.1 (mem_append_right _ mem_cons_self)

theorem InOrder.step_iff (H : s.Kept remoteOf) (hin : s.InOrder remoteOf)
    (h : s.step remoteOf a = some s') : s'.InOrder remoteOf ↔ s.inTurn a = true := by
  cases a with
  | receive g frame =>
    refine iff_of_true (fun g' => ?_) rfl
    obtain ⟨new, hwire, hhandled, -⟩ := receive_spec h g'
    rw [hwire, hhandled]
    exact (hin g').trans (List.prefix_append _ new)
  | perform k =>
    rcases hk : s.tasks[k]? with _ | ⟨o, _ | ⟨e, rest⟩⟩
    · simp only [step, hk] at h
      cases h
    · simp only [step, hk] at h
      cases h
    have hspec := perform_spec hk h
    cases e with
    | send peerId response =>
      refine iff_of_true (fun g => ?_) (by simp only [inTurn, hk])
      obtain ⟨hwire, hhandled, -⟩ := hspec g
      rw [hwire, hhandled, ofSession, Option.toList_none, List.append_nil]
      exact hin g
    | handle d =>
      -- only the session of the deed is touched
      have hothers : s'.InOrder remoteOf ↔
          s'.handledOf d.session <+: s'.wireOf remoteOf d.session := by
        refine ⟨fun hin' => hin' d.session, fun hown g => ?_⟩
        by_cases hg : d.session = g
        · exact hg ▸ hown
        · obtain ⟨hwire, hhandled, -⟩ := hspec g
          rw [hwire, hhandled, ofSession, if_neg hg, Option.toList_none, List.append_nil]
          exact hin g
      obtain ⟨hwire, hhandled, -⟩ := hspec d.session
      have hsome : (ofSession d.session (.handle d)).toList = [d] := by
        rw [ofSession, if_pos rfl, Option.toList_some]
      have htodo := todoOf_eq (g := d.session) hk
      have hrest := H.wireOf_eq (hin d.session)
      have hnodup : (s.todoOf d.session).Nodup := by
        have hwire : (s.wireOf remoteOf d.session).Nodup := wireDeeds_nodup
        rw [hrest] at hwire
        exact (List.nodup_append.mp hwire).2.1
      rw [hsome, List.append_assoc, List.singleton_append] at htodo
      rw [htodo] at hnodup
      rw [hothers, hwire, hhandled, hsome, hrest, List.prefix_append_right_inj, htodo,
        prefix_singleton_iff hnodup]
      simp only [inTurn, hk, List.isEmpty_iff]
  | finish | host | request | cancelRequest =>
    cases h
    exact iff_of_true hin rfl

/-- Messages are handled in order all along a run exactly when every task waits, before it goes on
with a message, for the older tasks of its session. -/
theorem inOrder_iff_inTurn {acts : List PumpAction} (h : FreeRun (step remoteOf) {} acts s) :
    Always (step remoteOf) (InOrder remoteOf) {} acts ↔
      Run (step remoteOf) (fun s a => s.inTurn a = true) {} acts s :=
  Run.always_iff (I := Kept remoteOf) (fun H hstep => H.step hstep)
    (fun H hin hstep => hin.step_iff H hstep) h .empty fun _ => prefix_rfl

/-- A message of text for concrete runs. -/
def sampleMessage (messageId : String) : WireFrame :=
  .message messageId 1 (.obj [("kind", .str "chat")])

/-- Two messages whose tasks go on in the order of their spawning. -/
theorem inOrder_iff_inTurn_chat : ∃ acts s, FreeRun (step fun _ => ⟨"p", "direct"⟩) {} acts s ∧
    s.handled.map (·.index) = [0, 1] ∧
    Always (step fun _ => ⟨"p", "direct"⟩) (InOrder fun _ => ⟨"p", "direct"⟩) {} acts := by
  let acts : List PumpAction := [.receive 0 (sampleMessage "m1"), .receive 0 (sampleMessage "m2"),
    .perform 0, .perform 0]
  have hrun : (exec (step fun _ => ⟨"p", "direct"⟩) {} acts).map (fun s =>
      s.handled.map (·.index)) = some [0, 1] := by
    decide +kernel
  have hok : allowed (step fun _ => ⟨"p", "direct"⟩) inTurn {} acts = true := by decide +kernel
  obtain ⟨s, hs, hend⟩ := map_eq_some_iff.mp hrun
  exact ⟨acts, s, .of_exec hs, hend, (inOrder_iff_inTurn (.of_exec hs)).mpr (Run.of_allowed hok hs)⟩

/-- The task of the second message overtakes that of the first. -/
theorem message_overtakes : ¬ ∀ acts s, FreeRun (step fun _ => ⟨"p", "direct"⟩) {} acts s →
    s.InOrder fun _ => ⟨"p", "direct"⟩ := by
  intro h
  let acts : List PumpAction := [.receive 0 (sampleMessage "m1"), .receive 0 (sampleMessage "m2"),
    .perform 1]
  have hrun : (exec (step fun _ => ⟨"p", "direct"⟩) {} acts).map (fun s =>
      decide (s.handledOf 0 <+: s.wireOf (fun _ => ⟨"p", "direct"⟩) 0)) = some false := by
    decide +kernel
  obtain ⟨s, hs, hend⟩ := map_eq_some_iff.mp hrun
  exact of_decide_eq_false hend (h acts s (.of_exec hs) 0)

end Pump
end Bluetalk.PeerService

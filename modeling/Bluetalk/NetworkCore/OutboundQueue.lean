import Mathlib.Algebra.GroupWithZero.Nat
import Bluetalk.Theory.Run

/-!
# The outbound queue of a desktop session

`send_encoded_to` of `network-core/src/service.rs`, and of `run_session` the writer's dequeue and
the answer to a ping. An attempt to enqueue is one step, and so is a dequeue. The writer may stop,
after a failed write, while the read loop goes on; the receiver of the channel and every frame in
it go with the writer's task. `queued_bytes` is an `AtomicUsize`, whose arithmetic wraps around,
and the queue is a `tokio::sync::mpsc` channel.
-/

open List Option

namespace Bluetalk.NetworkCore

/-- What `encode_wire_frame` yields: a JSON object, so it has bytes. -/
structure EncodedFrame where
  bytes : List UInt8
  nonempty : bytes ≠ []

namespace EncodedFrame

def len (encoded : EncodedFrame) : Nat := encoded.bytes.length

theorem len_pos (encoded : EncodedFrame) : 0 < encoded.len :=
  length_pos_iff.mpr encoded.nonempty

end EncodedFrame

/-- The limits that the queue of a session is under. -/
structure QueueLimits where
  outboundQueueFrames : Nat := 64
  outboundQueueBytes : UInt64 := 16 * 1024 * 1024

inductive TrySendError | full | closed

inductive SendError | backpressure | peerNotFound

structure OutboundQueue where
  /-- the frames in the channel, the oldest first -/
  outbound : List EncodedFrame := []
  /-- the channel has its receiver -/
  receiver : Bool := true
  queuedBytes : UInt64 := 0
  /-- the writer takes frames -/
  writing : Bool := true
  /-- the read loop of `run_session` has not ended -/
  reading : Bool := true
  /-- the table has this connection under its peer and device -/
  registered : Bool := true

inductive QueueAction
  /-- `send_encoded_to` -/
  | send (encoded : EncodedFrame)
  /-- a ping is read, whose answer is this pong -/
  | ping (encoded : EncodedFrame)
  | dequeue
  /-- the writer leaves its loop -/
  | stopWriting
  /-- the writer's task is over -/
  | dropReceiver
  /-- another session takes the place in the table, or the table is cleared -/
  | unregister
  | stopReading

def totalBytes (frames : List EncodedFrame) : Nat := (frames.map (·.len)).sum

@[simp] theorem totalBytes_nil : totalBytes [] = 0 := rfl

@[simp] theorem totalBytes_cons (e : EncodedFrame) (frames : List EncodedFrame) :
    totalBytes (e :: frames) = e.len + totalBytes frames := sum_cons

@[simp] theorem totalBytes_concat (frames : List EncodedFrame) (e : EncodedFrame) :
    totalBytes (frames ++ [e]) = totalBytes frames + e.len := by
  simp [totalBytes]

namespace OutboundQueue

variable (limits : QueueLimits)

/-- `AtomicUsize::fetch_add` -/
def fetchAdd (s : OutboundQueue) (n : Nat) : OutboundQueue :=
  { s with queuedBytes := s.queuedBytes + .ofNat n }

/-- `AtomicUsize::fetch_sub` -/
def fetchSub (s : OutboundQueue) (n : Nat) : OutboundQueue :=
  { s with queuedBytes := s.queuedBytes - .ofNat n }

/-- `mpsc::Sender::try_send` -/
def trySend (s : OutboundQueue) (encoded : EncodedFrame) : Except TrySendError OutboundQueue :=
  if s.receiver = false then .error .closed
  else if limits.outboundQueueFrames ≤ s.outbound.length then .error .full
  else .ok { s with outbound := s.outbound ++ [encoded] }

def sendEncodedTo (s : OutboundQueue) (encoded : EncodedFrame) :
    Except SendError Unit × OutboundQueue :=
  let queued := s.queuedBytes
  let s := s.fetchAdd encoded.len
  if limits.outboundQueueBytes < queued + .ofNat encoded.len then
    (.error .backpressure, s.fetchSub encoded.len)
  else
    match s.trySend limits encoded with
    | .ok s => (.ok (), s)
    | .error .full => (.error .backpressure, s.fetchSub encoded.len)
    | .error .closed => (.error .peerNotFound, s.fetchSub encoded.len)

/-- The arm of the read loop for a ping. -/
def answerPing (s : OutboundQueue) (encoded : EncodedFrame) : OutboundQueue :=
  if s.registered then
    let s := s.fetchAdd encoded.len
    match s.trySend limits encoded with
    | .ok s => s
    | .error _ => s -- queue full: the heartbeat keeps the link alive
  else s

/-- The new frame is allocated while those in the queue are, all in one address space. -/
def allocated (s : OutboundQueue) (encoded : EncodedFrame) : Prop :=
  totalBytes s.outbound + encoded.len < UInt64.size

instance (s : OutboundQueue) (encoded : EncodedFrame) : Decidable (s.allocated encoded) :=
  inferInstanceAs (Decidable (_ < _))

def step (s : OutboundQueue) : QueueAction → Option OutboundQueue
  | .send encoded => if s.allocated encoded then some (s.sendEncodedTo limits encoded).2 else none
  | .ping encoded =>
    if s.reading ∧ s.allocated encoded then some (s.answerPing limits encoded) else none
  | .dequeue =>
    if s.writing then
      match s.outbound with
      | [] => none
      | encoded :: rest => some ({ s with outbound := rest }.fetchSub encoded.len)
    else none
  | .stopWriting => some { s with writing := false }
  | .dropReceiver =>
    if s.writing then none else some { s with outbound := [], receiver := false }
  | .unregister => some { s with registered := false }
  | .stopReading => some { s with reading := false, writing := false }

/-- As long as the session reads, its counter is the bytes of the frames in its queue; so a dequeue
takes away no more than there is, and a send is refused for what is in the queue. -/
structure Accounted (s : OutboundQueue) : Prop where
  counted : s.reading = true → s.queuedBytes.toNat = totalBytes s.outbound
  no_underflow : s.reading = true → ∀ encoded rest, s.outbound = encoded :: rest →
    encoded.len ≤ s.queuedBytes.toNat
  backpressure : s.reading = true → ∀ encoded, s.allocated encoded →
    (s.sendEncodedTo limits encoded).1 = .error .backpressure →
    limits.outboundQueueBytes.toNat < totalBytes s.outbound + encoded.len ∨
      limits.outboundQueueFrames ≤ s.outbound.length

/-- A pong finds room in the queue, and the writer leaves no frames behind. -/
def settles (s : OutboundQueue) : QueueAction → Bool
  | .ping _ => !s.registered || s.receiver && decide (s.outbound.length < limits.outboundQueueFrames)
  | .dropReceiver => !s.reading || s.outbound.isEmpty
  | _ => true

variable {limits} {s s' : OutboundQueue} {encoded : EncodedFrame} {n : Nat}

@[simp] theorem fetchSub_fetchAdd : (s.fetchAdd n).fetchSub n = s := by
  simp [fetchAdd, fetchSub]

theorem toNat_add_len (hcount : s.queuedBytes.toNat = totalBytes s.outbound)
    (halloc : s.allocated encoded) :
    (s.queuedBytes + .ofNat encoded.len).toNat = totalBytes s.outbound + encoded.len := by
  have hlen : encoded.len < UInt64.size := Nat.lt_of_le_of_lt (Nat.le_add_left _ _) halloc
  rw [UInt64.toNat_add, UInt64.toNat_ofNat_of_lt' hlen, hcount]
  exact Nat.mod_eq_of_lt halloc

theorem trySend_ok (h : s.trySend limits encoded = .ok s') :
    s' = { s with outbound := s.outbound ++ [encoded] } ∧
      s.receiver = true ∧ s.outbound.length < limits.outboundQueueFrames := by
  rw [trySend] at h
  split at h
  · cases h
  next hrecv =>
  split at h
  · cases h
  next hfull =>
  cases h
  exact ⟨rfl, (Bool.not_eq_false _).mp hrecv, Nat.lt_of_not_le hfull⟩

theorem trySend_full (h : s.trySend limits encoded = .error .full) :
    limits.outboundQueueFrames ≤ s.outbound.length := by
  rw [trySend] at h
  split at h
  · cases h
  · split at h
    next hfull => exact hfull
    · cases h

theorem trySend_error {e : TrySendError} (h : s.trySend limits encoded = .error e) :
    ¬ (s.receiver = true ∧ s.outbound.length < limits.outboundQueueFrames) := by
  rintro ⟨hrecv, hroom⟩
  rw [trySend, hrecv, if_neg Bool.noConfusion, if_neg (Nat.not_le.mpr hroom)] at h
  cases h

theorem sendEncodedTo_cases : (s.sendEncodedTo limits encoded).2 = s ∨
    (s.sendEncodedTo limits encoded).2 =
      { s with outbound := s.outbound ++ [encoded] }.fetchAdd encoded.len := by
  simp only [sendEncodedTo]
  split
  · exact .inl fetchSub_fetchAdd
  split
  next s' hsend => exact .inr (trySend_ok hsend).1
  · exact .inl fetchSub_fetchAdd
  · exact .inl fetchSub_fetchAdd

theorem answerPing_eq : s.answerPing limits encoded =
    if s.registered = false then s
    else if s.receiver ∧ s.outbound.length < limits.outboundQueueFrames then
      { s with outbound := s.outbound ++ [encoded] }.fetchAdd encoded.len
    else s.fetchAdd encoded.len := by
  rw [answerPing]
  split
  next hreg =>
    rw [if_neg (by rw [hreg]; exact Bool.noConfusion)]
    dsimp only
    split
    next s' hsend =>
      obtain ⟨rfl, hroom⟩ := trySend_ok hsend
      have hroom : s.receiver = true ∧ s.outbound.length < limits.outboundQueueFrames := hroom
      rw [if_pos hroom]
      rfl
    next hsend =>
    have hroom : ¬ (s.receiver = true ∧ s.outbound.length < limits.outboundQueueFrames) :=
      trySend_error (s := s.fetchAdd encoded.len) hsend
    rw [if_neg hroom]
  next hreg => rw [if_pos ((Bool.not_eq_true _).mp hreg)]

theorem accounted_iff : s.Accounted limits ↔
    (s.reading = true → s.queuedBytes.toNat = totalBytes s.outbound) := by
  refine ⟨Accounted.counted, fun hcount => ⟨hcount, fun hread e rest hout => ?_,
    fun hread e halloc hsend => ?_⟩⟩
  · rw [hcount hread, hout, totalBytes_cons]
    exact Nat.le_add_right _ _
  simp only [sendEncodedTo] at hsend
  split at hsend
  next hbudget =>
    rw [UInt64.lt_iff_toNat_lt, toNat_add_len (hcount hread) halloc] at hbudget
    exact .inl hbudget
  next =>
  split at hsend
  · cases hsend
  next hfull => exact .inr (trySend_full (s := s.fetchAdd e.len) hfull)
  · cases hsend

theorem counted_push (hcount : s.queuedBytes.toNat = totalBytes s.outbound)
    (halloc : s.allocated encoded) :
    ({ s with outbound := s.outbound ++ [encoded] }.fetchAdd encoded.len).queuedBytes.toNat =
      totalBytes (s.outbound ++ [encoded]) := by
  rw [totalBytes_concat]
  exact toNat_add_len hcount halloc

theorem counted_pop {rest : List EncodedFrame} (hout : s.outbound = encoded :: rest)
    (hcount : s.queuedBytes.toNat = totalBytes s.outbound) :
    (s.queuedBytes - .ofNat encoded.len).toNat = totalBytes rest := by
  rw [hout, totalBytes_cons] at hcount
  have hlt := s.queuedBytes.toNat_lt
  have hlen : encoded.len < UInt64.size := by
    have : UInt64.size = 2 ^ 64 := rfl
    omega
  have hle : UInt64.ofNat encoded.len ≤ s.queuedBytes := by
    rw [UInt64.le_iff_toNat_le, UInt64.toNat_ofNat_of_lt' hlen]
    omega
  rw [UInt64.toNat_sub_of_le _ _ hle, UInt64.toNat_ofNat_of_lt' hlen]
  omega

theorem Accounted.step_iff {a : QueueAction} (H : s.Accounted limits)
    (h : s.step limits a = some s') : s'.Accounted limits ↔ s.settles limits a = true := by
  have hcount := H.counted
  rw [accounted_iff]
  cases a with
  | send e =>
    simp only [step, ite_none_right_eq_some, Option.some.injEq] at h
    obtain ⟨halloc, rfl⟩ := h
    refine iff_of_true ?_ rfl
    rcases sendEncodedTo_cases (s := s) with heq | heq <;> rw [heq]
    · exact hcount
    · exact fun hread => counted_push (hcount hread) halloc
  | ping e =>
    simp only [step, ite_none_right_eq_some, Option.some.injEq] at h
    obtain ⟨⟨hread, halloc⟩, rfl⟩ := h
    rw [answerPing_eq, settles]
    cases hreg : s.registered
    · exact iff_of_true hcount rfl
    simp only [Bool.true_eq_false, if_false, Bool.not_true, Bool.false_or, Bool.and_eq_true,
      decide_eq_true_eq]
    split
    next hroom => exact iff_of_true (fun _ => counted_push (hcount hread) halloc) hroom
    next hroom =>
    refine iff_of_false (fun H' => ?_) hroom
    have heq := (toNat_add_len (hcount hread) halloc).symm.trans (H' hread)
    have hpos := e.len_pos
    change totalBytes s.outbound + e.len = totalBytes s.outbound at heq
    omega
  | dequeue =>
    simp only [step] at h
    split at h
    · split at h
      · cases h
      next e rest hout =>
      cases h
      exact iff_of_true (fun hread => counted_pop (s := s) hout (hcount hread)) rfl
    · cases h
  | stopWriting | unregister =>
    cases h
    exact iff_of_true hcount rfl
  | dropReceiver =>
    simp only [step] at h
    split at h
    · cases h
    cases h
    rw [settles]
    cases hread : s.reading
    · exact iff_of_true Bool.noConfusion rfl
    simp only [hread, forall_const, totalBytes_nil, Bool.not_true, Bool.false_or,
      List.isEmpty_iff] at hcount ⊢
    rw [hcount]
    cases hout : s.outbound with
    | nil => simp
    | cons e rest =>
      have hpos := e.len_pos
      refine iff_of_false ?_ (List.cons_ne_nil e rest)
      rw [totalBytes_cons]
      omega
  | stopReading =>
    cases h
    exact iff_of_true Bool.noConfusion rfl

theorem accounted_empty : ({} : OutboundQueue).Accounted limits :=
  accounted_iff.mpr fun _ => rfl

/-- The account is right all along a run exactly when every pong finds room in the queue, and the
writer does not end before the read loop with frames still queued. -/
theorem accounted_iff_settles {acts : List QueueAction}
    (h : FreeRun (step limits) {} acts s) :
    Always (step limits) (Accounted limits) {} acts ↔
      Run (step limits) (fun s a => s.settles limits a = true) {} acts s :=
  Run.always_iff (I := fun _ => True) (fun _ _ => trivial)
    (fun _ H hstep => H.step_iff hstep) h trivial accounted_empty

/-- A frame for concrete runs. -/
def sampleFrame : EncodedFrame := ⟨[123, 125], cons_ne_nil _ _⟩

/-- A message and a pong are queued and written, and then the session ends. -/
theorem accounted_iff_settles_pong : ∃ acts s, FreeRun (step {}) {} acts s ∧
    s.reading = false ∧ Always (step {}) (Accounted {}) {} acts := by
  let acts : List QueueAction := [.send sampleFrame, .ping sampleFrame, .dequeue, .dequeue,
    .send sampleFrame, .stopReading, .dropReceiver]
  have hrun : (exec (step {}) {} acts).map (·.reading) = some false := by decide +kernel
  have hok : allowed (step {}) (settles {}) {} acts = true := by decide +kernel
  obtain ⟨s, hs, hread⟩ := map_eq_some_iff.mp hrun
  exact ⟨acts, s, .of_exec hs, hread,
    (accounted_iff_settles (.of_exec hs)).mpr (Run.of_allowed hok hs)⟩

/-- A pong for which a full queue has no room stays in the counter. -/
theorem pong_leaks : ¬ ∀ acts s, FreeRun (step {}) {} acts s → s.Accounted {} := by
  intro h
  let acts : List QueueAction := List.replicate 64 (.send sampleFrame) ++ [.ping sampleFrame]
  have hrun : (exec (step {}) {} acts).map (fun s =>
      (s.reading, s.queuedBytes.toNat, totalBytes s.outbound)) = some (true, 130, 128) := by
    decide +kernel
  obtain ⟨s, hs, hend⟩ := map_eq_some_iff.mp hrun
  simp only [Prod.mk.injEq] at hend
  have hcount := (h acts s (.of_exec hs)).counted hend.1
  rw [hend.2.1, hend.2.2] at hcount
  exact absurd hcount (by decide)

end OutboundQueue

end Bluetalk.NetworkCore

import Bluetalk.PeerProtocol.Frames

/-!
# The frames that are read

Whatever chunks a stream is cut into, and whenever the reader takes its turns, the frames that it
reads are those that the stream holds, and the desktop would read the same.
-/

open List

namespace Bluetalk.PeerProtocol.Web

variable {limit : Nat → Nat} {maximum length : Nat} {bytes chunk rest : Bytes}
  {assembler : ByteAssembler}

theorem tryReadPrefixed_eq : tryReadPrefixed bytes maximum =
    match unframe maximum bytes with
    | .incomplete => .ok none
    | .oversized length => .error (frameTooLarge length maximum)
    | .frame frame rest => .ok (some (frame, rest)) := by
  rw [tryReadPrefixed, unframe]
  by_cases hshort : bytes.length < 4
  · rw [if_pos hshort, if_pos hshort]
  rw [if_neg hshort, if_neg hshort]
  have hlength : readU32Be bytes = ofBigEndian (bytes.take 4) := rfl
  rw [hlength]
  by_cases hmax : maximum < ofBigEndian (bytes.take 4)
  · rw [if_pos hmax, if_pos hmax]
  rw [if_neg hmax, if_neg hmax]
  by_cases hlong : bytes.length < 4 + ofBigEndian (bytes.take 4)
  · rw [if_pos hlong, if_pos hlong]
  · rw [if_neg hlong, if_neg hlong]

theorem nextFrame_eq : assembler.nextFrame maximum =
    match unframe maximum assembler.buffer with
    | .incomplete => .ok none
    | .oversized length => .error (frameTooLarge length maximum)
    | .frame frame rest => .ok (some (frame, ⟨rest⟩)) := by
  rw [ByteAssembler.nextFrame, tryReadPrefixed_eq]
  split
  next h =>
    split at h
    · cases h
    · cases h
      rfl
    · cases h
  next h =>
    split at h
    · rfl
    all_goals cases h
  next h =>
  split at h
  · cases h
  · cases h
  · cases h
    rfl

theorem push_buffer : (assembler.push chunk).buffer = assembler.buffer ++ chunk := by
  rw [ByteAssembler.push]
  split
  next h => rw [length_eq_zero_iff.mp h, append_nil]
  · rfl

theorem unframe_oversized_append (h : unframe maximum bytes = .oversized length) :
    unframe maximum (bytes ++ chunk) = .oversized length := by
  obtain ⟨rest, rfl, hmax, hlt⟩ := unframe_eq_oversized.mp h
  exact unframe_eq_oversized.mpr ⟨rest ++ chunk, append_assoc _ _ _, hmax, hlt⟩

namespace Reader

variable {s s' : Reader} {frames : List Bytes}

/-- What was pushed is what was taken off the stream, and what is in the buffer. A waiter is there
while the reader waits, and the buffer holds no whole frame then. -/
structure Reading (limit : Nat → Nat) (s : Reader) : Prop where
  kept : s.pushed = framedAll s.taken ++ s.transport.assembler.buffer
  fit : Fit limit 0 s.taken
  pending : s.transport.pending =
    if s.phase matches .waiting then [limit s.delivered.length] else []
  waits : s.phase = .waiting →
    unframe (limit s.delivered.length) s.transport.assembler.buffer = .incomplete
  errors : ∀ e, s.phase = .due (.error e) ∨ s.phase = .stopped e → s.isOpen = true →
    ∃ length, unframe (limit s.delivered.length) s.transport.assembler.buffer = .oversized length ∧
      e = frameTooLarge length (limit s.delivered.length)

theorem Reading.empty : Reading limit {} where
  kept := rfl
  fit i bytes h := by cases h
  pending := rfl
  waits h := by cases h
  errors e h := by rcases h with h | h <;> cases h

theorem Reading.buffer (H : s.Reading limit) (hphase : s.phase ≠ .waiting) (chunk : Bytes) :
    Reading limit { s with
      transport := { s.transport with assembler := s.transport.assembler.push chunk }
      pushed := s.pushed ++ chunk } where
  kept := by
    change s.pushed ++ chunk = framedAll s.taken ++ (s.transport.assembler.push chunk).buffer
    rw [H.kept, push_buffer, append_assoc]
  fit := H.fit
  pending := H.pending
  waits h := absurd h hphase
  errors e he hopen := by
    obtain ⟨length, hlength, htext⟩ := H.errors e he hopen
    refine ⟨length, ?_, htext⟩
    rw [push_buffer]
    exact unframe_oversized_append hlength

theorem Reading.read (H : s.Reading limit) (hphase : s.phase = .idle ∨ s.phase = .waiting)
    (buffer : Bytes) (hpushed : s.pushed ++ chunk = framedAll s.delivered ++ buffer)
    (transport : Transport) (hpending : transport.pending = []) :
    match unframe (limit s.delivered.length) buffer with
    | .incomplete => Reading limit { s with
        transport := { transport with
          assembler := ⟨buffer⟩, pending := [limit s.delivered.length] }
        phase := .waiting, pushed := s.pushed ++ chunk }
    | .oversized length => Reading limit { s with
        transport := { transport with assembler := ⟨buffer⟩ }
        phase := .due (.error (frameTooLarge length (limit s.delivered.length)))
        pushed := s.pushed ++ chunk }
    | .frame bytes rest => Reading limit { s with
        transport := { transport with assembler := ⟨rest⟩ }
        phase := .due (.ok bytes), pushed := s.pushed ++ chunk } := by
  have htaken : s.taken = s.delivered := by
    rcases hphase with h | h <;> rw [taken, h]
  have hfit := H.fit
  rw [htaken] at hfit
  split
  next hframe =>
    refine ⟨hpushed, hfit, rfl, fun _ => hframe, fun e he => ?_⟩
    rcases he with he | he <;> cases he
  next length hframe =>
    refine ⟨hpushed, hfit, hpending, fun h => ?_, fun e he _ => ?_⟩
    · cases h
    rcases he with he | he
    · cases he
      exact ⟨length, hframe, rfl⟩
    · cases he
  next bytes rest hframe =>
  obtain ⟨rfl, hmax, hlt⟩ := unframe_eq_frame.mp hframe
  refine ⟨?_, ?_, hpending, fun h => ?_, fun e he => ?_⟩
  · change s.pushed ++ chunk = framedAll (s.delivered ++ [bytes]) ++ rest
    rw [hpushed, framedAll_concat, append_assoc]
  · exact hfit.concat ⟨by rwa [Nat.zero_add], hlt⟩
  · cases h
  · rcases he with he | he <;> cases he

theorem serve_one : Transport.serve assembler [maximum] =
    match unframe maximum assembler.buffer with
    | .incomplete => (assembler, [maximum], [])
    | .oversized length => (assembler, [], [.error (frameTooLarge length maximum)])
    | .frame bytes rest => (⟨rest⟩, [], [.ok bytes]) := by
  rw [Transport.serve, nextFrame_eq]
  cases unframe maximum assembler.buffer <;> rfl

theorem Reading.push (H : s.Reading limit) (h : s.step limit (.push chunk) = some s') :
    s'.Reading limit := by
  cases h
  have hpending := H.pending
  cases hphase : s.phase with
  | waiting =>
    have htaken : s.taken = s.delivered := by rw [taken, hphase]
    have hpushed : s.pushed ++ chunk =
        framedAll s.delivered ++ (s.transport.assembler.push chunk).buffer := by
      rw [H.kept, htaken, push_buffer, append_assoc]
    have hread := H.read (.inr hphase) _ hpushed { s.transport with pending := [] } rfl
    rw [wake, Transport.push, hpending]
    rw [hphase, if_pos rfl, serve_one]
    cases hstart : unframe (limit s.delivered.length) (s.transport.assembler.push chunk).buffer with
    | incomplete | oversized | frame =>
      rw [hstart] at hread
      exact hread
  | idle | due | stopped =>
    have hpending : s.transport.pending = [] := by
      rw [hpending, hphase]
      rfl
    have hbuffer := H.buffer (by rw [hphase]; exact ReadPhase.noConfusion) chunk
    obtain ⟨⟨assembler, pending, failed, closed⟩, phase, delivered, pushed⟩ := s
    cases hpending
    cases hphase
    exact hbuffer

theorem Reading.call (H : s.Reading limit) (h : s.step limit .call = some s') :
    s'.Reading limit := by
  simp only [step] at h
  split at h
  next hphase =>
    cases h
    have htaken : s.taken = s.delivered := by rw [taken, hphase]
    have hpending : s.transport.pending = [] := by
      rw [H.pending, hphase]
      rfl
    have hpushed : s.pushed ++ [] = framedAll s.delivered ++ s.transport.assembler.buffer := by
      rw [append_nil, H.kept, htaken]
    have hread := H.read (.inl hphase) _ hpushed _ hpending
    rw [append_nil] at hread
    rw [Transport.readPrefixed, nextFrame_eq]
    cases hstart : unframe (limit s.delivered.length) s.transport.assembler.buffer with
    | oversized | frame =>
      rw [hstart] at hread
      exact hread
    | incomplete =>
      rw [hstart] at hread
      -- an end of the transport rejects at once
      have hended : s.isOpen = false → ∀ e, Reading limit { s with phase := .due (.error e) } := by
        intro hopen e
        refine ⟨?_, ?_, hpending, fun h => ?_, fun e _ h => ?_⟩
        · exact htaken ▸ H.kept
        · exact htaken ▸ H.fit
        · cases h
        · have h : s.isOpen = true := h
          rw [hopen] at h
          cases h
      dsimp only
      split
      next hfailed =>
        refine hended ?_ _
        rw [isOpen, hfailed, Option.isNone_some, Bool.false_and]
      · split
        next hclosed =>
          refine hended ?_ _
          rw [isOpen, hclosed, Bool.not_true, Bool.and_false]
        · rw [hpending]
          exact hread
  · cases h

theorem Reading.resume (H : s.Reading limit) (h : s.step limit .resume = some s') :
    s'.Reading limit := by
  simp only [step] at h
  split at h
  next frame hphase =>
    cases h
    have htaken : s.taken = s.delivered ++ [frame] := by rw [taken, hphase]
    refine ⟨htaken ▸ H.kept, htaken ▸ H.fit, ?_, fun h => ?_, fun e he => ?_⟩
    · rw [H.pending, hphase]
      rfl
    · cases h
    · rcases he with he | he <;> cases he
  next e hphase =>
    cases h
    have htaken : s.taken = s.delivered := by rw [taken, hphase]
    refine ⟨htaken ▸ H.kept, htaken ▸ H.fit, ?_, fun h => ?_, fun e' he hopen => ?_⟩
    · rw [H.pending, hphase]
    · cases h
    rcases he with he | he
    · cases he
    · cases he
      exact H.errors e (.inl hphase) hopen
  · cases h

theorem Reading.settle (H : s.Reading limit) {failed : Option Error} {closed : Bool}
    (hend : failed.isNone = false ∨ closed = true) :
    (s.wake (Transport.settle ⟨s.transport.assembler, s.transport.pending, failed, closed⟩)).Reading
      limit := by
  have hopen : (failed.isNone && !closed) = false := by
    rcases hend with h | h <;> rw [h]
    · exact Bool.false_and _
    · exact Bool.and_false _
  -- a reader that goes on waiting, or one that has nobody to wake
  have hstays : Reading limit { s with
      transport := ⟨s.transport.assembler, s.transport.pending, failed, closed⟩ } := by
    refine ⟨H.kept, H.fit, H.pending, H.waits, fun e _ h => ?_⟩
    cases hopen.symm.trans h
  have hwakes : s.phase = .waiting → ∀ e, Reading limit { s with
      transport := ⟨s.transport.assembler, [], failed, closed⟩, phase := .due (.error e) } := by
    intro hphase e
    have htaken : s.taken = s.delivered := by rw [taken, hphase]
    refine ⟨htaken ▸ H.kept, htaken ▸ H.fit, rfl, fun h => ?_, fun e _ h => ?_⟩
    · cases h
    · cases hopen.symm.trans h
  have hpending := H.pending
  rw [Transport.settle]
  dsimp only
  cases hphase : s.phase with
  | waiting =>
    rw [hphase] at hpending
    split
    next e =>
      have h := hwakes hphase e
      rw [wake, hphase, hpending]
      exact h
    · split
      · have h := hwakes hphase (.thrown "connection closed")
        rw [wake, hphase, hpending]
        exact h
      · obtain ⟨transport, phase, delivered, pushed⟩ := s
        cases hphase
        exact hstays
  | idle | due | stopped =>
    have hpending : s.transport.pending = [] := by
      rw [hpending, hphase]
      rfl
    obtain ⟨⟨assembler, pending, failed', closed'⟩, phase, delivered, pushed⟩ := s
    cases hpending
    cases hphase
    split
    · exact hstays
    · split
      · exact hstays
      · exact hstays

theorem Reading.step {a : ReaderAction} (H : s.Reading limit) (h : s.step limit a = some s') :
    s'.Reading limit := by
  cases a with
  | push chunk => exact H.push h
  | call => exact H.call h
  | resume => exact H.resume h
  | fail e =>
    cases h
    exact H.settle (.inl rfl)
  | close =>
    cases h
    exact H.settle (.inr rfl)

theorem call_cases (h : s.phase = .idle) : ∃ s₁, s.step limit .call = some s₁ ∧
    s₁.pushed = s.pushed ∧ (s₁.phase = .waiting ∨ (∃ e, s₁.phase = .due (.error e)) ∨
      ∃ frame, s₁.phase = .due (.ok frame) ∧
        s₁.transport.assembler.buffer.length < s.transport.assembler.buffer.length) := by
  rw [Reader.step, h]
  refine ⟨_, rfl, rfl, ?_⟩
  rw [nextFrame_eq]
  cases hstart : unframe (limit s.delivered.length) s.transport.assembler.buffer with
  | oversized => exact .inr (.inl ⟨_, rfl⟩)
  | frame bytes rest => exact .inr (.inr ⟨bytes, rfl, length_lt_of_unframe hstart⟩)
  | incomplete =>
    cases hfailed : s.transport.failed with
    | some e => exact .inr (.inl ⟨_, rfl⟩)
    | none =>
      cases hclosed : s.transport.closed with
      | true => exact .inr (.inl ⟨_, rfl⟩)
      | false => exact .inl rfl

/-- A reader comes to rest when it takes its turns. -/
structure Settles (limit : Nat → Nat) (s : Reader) : Prop where
  exists_run : ∃ acts s', (∀ a ∈ acts, a = .call ∨ a = .resume) ∧
    FreeRun (Reader.step limit) s acts s' ∧ s'.atRest = true ∧ s'.pushed = s.pushed

theorem Settles.of_atRest (h : s.atRest = true) : s.Settles limit :=
  ⟨[], s, fun _ ha => absurd ha not_mem_nil, .nil, h, rfl⟩

theorem Settles.cons {a : ReaderAction} (ha : a = .call ∨ a = .resume)
    (h : s.step limit a = some s') (hpushed : s'.pushed = s.pushed) (H : s'.Settles limit) :
    s.Settles limit := by
  obtain ⟨acts, t, hacts, hrun, hrest, ht⟩ := H.exists_run
  refine ⟨a :: acts, t, fun b hb => ?_, .cons trivial h hrun, hrest, ht.trans hpushed⟩
  rcases mem_cons.mp hb with rfl | hb
  · exact ha
  · exact hacts b hb

theorem settles_error {e : Error} (h : s.phase = .due (.error e)) : s.Settles limit := by
  have hstep : s.step limit .resume = some { s with phase := .stopped e } := by
    rw [Reader.step, h]
  exact .cons (.inr rfl) hstep rfl (.of_atRest rfl)

theorem settles_idle (n : Nat) : ∀ s : Reader, s.phase = .idle →
    s.transport.assembler.buffer.length = n → s.Settles limit := by
  induction n using Nat.strong_induction_on with
  | _ n ih =>
    intro s hphase hn
    obtain ⟨s₁, hcall, hpushed, hwaiting | ⟨e, herror⟩ | ⟨frame, hframe, hlt⟩⟩ :=
      call_cases hphase
    · refine .cons (.inl rfl) hcall hpushed (.of_atRest ?_)
      rw [atRest, hwaiting]
    · exact .cons (.inl rfl) hcall hpushed (settles_error herror)
    have hstep : s₁.step limit .resume =
        some { s₁ with phase := .idle, delivered := s₁.delivered ++ [frame] } := by
      rw [Reader.step, hframe]
    refine .cons (.inl rfl) hcall hpushed (.cons (.inr rfl) hstep rfl ?_)
    exact ih _ (hn ▸ hlt) _ rfl rfl

theorem settles : s.Settles limit := by
  cases hphase : s.phase with
  | idle => exact settles_idle _ s hphase rfl
  | waiting | stopped =>
    refine .of_atRest ?_
    rw [atRest, hphase]
  | due result =>
    cases result with
    | error e => exact settles_error hphase
    | ok frame =>
      have hstep : s.step limit .resume =
          some { s with phase := .idle, delivered := s.delivered ++ [frame] } := by
        rw [Reader.step, hphase]
      exact .cons (.inr rfl) hstep rfl (settles_idle _ _ rfl rfl)

/-- What a reader of a stream delivers. -/
structure Accurate (limit : Nat → Nat) (s : Reader) : Prop where
  /-- no byte is lost or doubled -/
  kept : ∃ rest, s.pushed = framedAll s.delivered ++ rest
  delivered : ∀ frames, Fit limit 0 frames → s.pushed <+: framedAll frames → s.delivered <+: frames
  complete : ∀ frames, Fit limit 0 frames → s.pushed = framedAll frames →
    s.isOpen = true → s.atRest = true → s.delivered = frames ∧ s.phase = .waiting
  oversized : ∀ frames length rest, Fit limit 0 frames → limit frames.length < length →
    length < 2 ^ 32 → s.pushed = framedAll frames ++ bigEndian 4 length ++ rest →
    s.delivered <+: frames ∧ (s.isOpen = true → s.atRest = true →
      s.delivered = frames ∧ s.phase = .stopped (frameTooLarge length (limit frames.length)))
  /-- the desktop reads the same frames off the same stream, and goes on where it ends -/
  desktop : s.isOpen = true → s.atRest = true →
    (Desktop.readAll limit 0 s.pushed).1 = s.delivered ∧
      ((Desktop.readAll limit 0 s.pushed).2 = .closed ↔ s.phase = .waiting)

theorem Reading.at_rest (H : s.Reading limit) (hopen : s.isOpen = true) (hrest : s.atRest = true) :
    s.phase = .waiting ∧ unframeAll limit 0 s.pushed = (s.delivered, none) ∨
      ∃ length, s.phase = .stopped (frameTooLarge length (limit s.delivered.length)) ∧
        unframeAll limit 0 s.pushed = (s.delivered, some length) := by
  have hkept := H.kept
  have hfit := H.fit
  cases hphase : s.phase with
  | waiting =>
    have htaken : s.taken = s.delivered := by rw [taken, hphase]
    rw [htaken] at hkept hfit
    have hwaits := H.waits hphase
    rw [hkept, unframeAll_framedAll hfit, Nat.zero_add, unframeAll_incomplete hwaits, append_nil]
    exact .inl ⟨rfl, rfl⟩
  | stopped e =>
    have htaken : s.taken = s.delivered := by rw [taken, hphase]
    rw [htaken] at hkept hfit
    obtain ⟨length, hlength, rfl⟩ := H.errors e (.inr hphase) hopen
    rw [hkept, unframeAll_framedAll hfit, Nat.zero_add, unframeAll_oversized hlength, append_nil]
    exact .inr ⟨length, rfl, rfl⟩
  | idle | due =>
    rw [atRest, hphase] at hrest
    cases hrest

theorem taken_prefix : s.delivered <+: s.taken := by
  rw [taken]
  split
  · exact prefix_append _ _
  all_goals exact prefix_rfl

theorem unframeAll_oversized_after (hfit : Fit limit 0 frames)
    (hmax : limit frames.length < length) (hlt : length < 2 ^ 32) :
    unframeAll limit 0 (framedAll frames ++ bigEndian 4 length ++ rest) =
      (frames, some length) := by
  have hstart : unframe (limit frames.length) (bigEndian 4 length ++ rest) = .oversized length :=
    unframe_eq_oversized.mpr ⟨rest, rfl, hmax, hlt⟩
  rw [append_assoc, unframeAll_framedAll hfit, Nat.zero_add, unframeAll_oversized hstart,
    append_nil]

theorem unframeAll_framedAll_nil (hfit : Fit limit 0 frames) :
    unframeAll limit 0 (framedAll frames) = (frames, none) := by
  have hall : unframeAll limit 0 (framedAll frames ++ []) = _ := unframeAll_framedAll hfit
  rw [append_nil] at hall
  rw [hall, unframeAll_incomplete rfl, append_nil]

theorem Reading.accurate (H : s.Reading limit) : s.Accurate limit where
  kept := by
    obtain ⟨more, hmore⟩ := taken_prefix (s := s)
    refine ⟨framedAll more ++ s.transport.assembler.buffer, ?_⟩
    rw [H.kept, ← hmore, framedAll_append, append_assoc]
  delivered frames hfit hpre := by
    refine taken_prefix.trans ?_
    rw [H.kept, ← append_nil (framedAll frames)] at hpre
    exact prefix_of_framedAll H.fit hfit hpre (by rw [unframeAll_incomplete rfl])
  complete frames hfit hpushed hopen hrest := by
    rcases H.at_rest hopen hrest with ⟨hphase, hall⟩ | ⟨length, -, hall⟩ <;>
      rw [hpushed, unframeAll_framedAll_nil hfit] at hall
    · exact ⟨(Prod.mk.inj hall).1.symm, hphase⟩
    · cases (Prod.mk.inj hall).2
  oversized frames length rest hfit hmax hlt hpushed := by
    constructor
    · have hkept : framedAll s.taken ++ s.transport.assembler.buffer =
          framedAll frames ++ (bigEndian 4 length ++ rest) := by
        rw [← H.kept, hpushed, append_assoc]
      have hpre : framedAll s.taken ++ s.transport.assembler.buffer <+:
          framedAll frames ++ (bigEndian 4 length ++ rest) := hkept ▸ prefix_rfl
      have hstart : unframe (limit (0 + frames.length)) (bigEndian 4 length ++ rest) =
          .oversized length := by
        rw [Nat.zero_add]
        exact unframe_eq_oversized.mpr ⟨rest, rfl, hmax, hlt⟩
      refine taken_prefix.trans (prefix_of_framedAll H.fit hfit hpre ?_)
      rw [unframeAll_oversized hstart]
    · intro hopen hrest
      rcases H.at_rest hopen hrest with ⟨-, hall⟩ | ⟨length', hphase, hall⟩ <;>
        rw [hpushed, unframeAll_oversized_after hfit hmax hlt] at hall
      · cases (Prod.mk.inj hall).2
      · obtain ⟨hframes, hlength⟩ := Prod.mk.inj hall
        cases hlength
        rw [← hframes] at hphase ⊢
        exact ⟨rfl, hphase⟩
  desktop hopen hrest := by
    rw [Desktop.readAll_eq]
    rcases H.at_rest hopen hrest with ⟨hphase, hall⟩ | ⟨length, hphase, hall⟩ <;> rw [hall, hphase]
    · exact ⟨rfl, iff_of_true rfl rfl⟩
    · exact ⟨rfl, iff_of_false NetworkError.noConfusion ReadPhase.noConfusion⟩

/-- In every run of the reader, whatever chunks a stream comes in, it delivers the frames of the
stream, it comes to rest, and then it has delivered them all. What either client writes are frames
of this kind. -/
theorem reader_accurate {acts : List ReaderAction} (h : FreeRun (Reader.step limit) {} acts s) :
    s.Accurate limit ∧ s.Settles limit ∧
      ∀ frame maximum, frame.length ≤ maximum → frame.length < 2 ^ 32 →
        encodePrefixed frame maximum = .ok (framed frame) ∧
          Desktop.writePrefixed frame maximum = .ok (framed frame) := by
  refine ⟨Reading.accurate ?_, settles, fun frame maximum hmax hlt => ⟨?_, ?_⟩⟩
  · exact h.invariant (I := Reading limit) (fun _ H hstep => H.step hstep) .empty
  · rw [encodePrefixed, if_neg]
    · rfl
    · rw [Bool.or_eq_true, decide_eq_true_eq, decide_eq_true_eq]
      omega
  rw [Desktop.writePrefixed, if_neg]
  · rfl
  · rw [Bool.or_eq_true, decide_eq_true_eq, decide_eq_true_eq]
    omega

/-- A hello, a record and an empty record, cut in the middle of a length and of a frame, the record
coming together with the end of the hello. -/
theorem reader_accurate_chunks : ∃ acts s, FreeRun (Reader.step (readLimit 100)) {} acts s ∧
    s.delivered = [[1, 2], [3], []] ∧ s.atRest = true ∧ s.pushed = framedAll [[1, 2], [3], []] ∧
    s.Accurate (readLimit 100) := by
  let acts : List ReaderAction := [.call, .push [0, 0], .push [0, 2, 1], .push [2, 0, 0, 0, 1, 3, 0],
    .resume, .push [0, 0], .call, .resume, .call, .push [0], .resume, .call]
  have hrun : (exec (Reader.step (readLimit 100)) {} acts).map (fun s =>
      (s.delivered, s.atRest, s.pushed)) =
      some ([[1, 2], [3], []], true, framedAll [[1, 2], [3], []]) := by
    decide +kernel
  obtain ⟨s, hs, hend⟩ := Option.map_eq_some_iff.mp hrun
  obtain ⟨hdelivered, hend⟩ := Prod.mk.inj hend
  obtain ⟨hrest, hpushed⟩ := Prod.mk.inj hend
  exact ⟨acts, s, .of_exec hs, hdelivered, hrest, hpushed, (reader_accurate (.of_exec hs)).1⟩

end Reader
end Bluetalk.PeerProtocol.Web

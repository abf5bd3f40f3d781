import Bluetalk.Calls.CallManager
import Mathlib.Data.List.Nodup

/-!
# Vectors of a call

As long as everything that is encrypted in one direction of a stream is numbered by one counter, no
vector is used twice. A counter belongs to a direction or a pipeline, and a call makes new ones.
-/

namespace Bluetalk.Calls.Call

/-- The direction that a source encrypts in, and its counter. -/
def counted (s : Call) : Source → Option (Nat × Nat)
  | .direction i => s.directions[i]?.map fun o => (o.direction.ivDirection, o.direction.seq)
  | .pipeline i => s.pipelines[i]?.map fun p => (p.ivDirection, p.nextSendSeq)

/-- The source that an action takes a number from to encrypt with it. -/
def encrypts (s : Call) : CallAction → Option Source
  | .dispatch .. | .resume .. => none
  | .encoded i _ =>
    if s.directions[i]?.any fun o => o.hasKey && !o.direction.closed && s.still o then
      some (.direction i)
    else none
  | .encrypted i j ok =>
    if s.directions[i]?.any fun o => ok && o.hasKey && !o.direction.closed && s.still o &&
        o.direction.calls[j]?.any fun call => call.i + 1 < call.parts.length then
      some (.direction i)
    else none
  | .packed i _ =>
    if s.pipelines[i]?.any fun p => !(p.closed || p.muted) then some (.pipeline i) else none

/-- Whether whatever was encrypted so far in the same direction has come from the same source, whose
counter has not reached its end. -/
def soleSource (s : Call) (a : CallAction) : Bool :=
  match s.encrypts a with
  | none => true
  | some x =>
    s.log.all (fun y => y.source = x || (s.counted y.source).map Prod.fst ≠ (s.counted x).map Prod.fst) &&
      (s.counted x).all fun v => v.2 < 2 ^ 53

variable {s s' s₁ : Call} {d i : Nat} {kind : StreamKind} {m : CallManager} {task : MediaTask}
  {a : CallAction} {x : Source} {o : Outgoing} {p : AudioPipeline} {generation : Nat}
  {direction : VideoDirection} {log : List Encryption}

/-- Nothing is encrypted and no counter moves. -/
structure Quiet (s s' : Call) : Prop where
  log : s'.log = s.log
  counted : ∀ x v, s.counted x = some v → s'.counted x = some v

theorem Quiet.refl (s : Call) : s.Quiet s := ⟨rfl, fun _ _ h => h⟩

theorem Quiet.trans (h : s.Quiet s₁) (h' : s₁.Quiet s') : s.Quiet s' :=
  ⟨h'.log.trans h.log, fun x v hx => h'.counted x v (h.counted x v hx)⟩

theorem quiet_setManager : s.Quiet (s.setManager d m) := ⟨rfl, fun _ _ h => h⟩

theorem quiet_spawn : s.Quiet (s.spawn d task) := ⟨rfl, fun _ _ h => h⟩

theorem Quiet.spawn (h : s.Quiet s') : s.Quiet (s'.spawn d task) := h.trans quiet_spawn

theorem map_getElem?_modify {α β : Type} {l : List α} {f : α → α} {view : α → β} {j : Nat}
    (hf : ∀ x, view (f x) = view x) : (l.modify i f)[j]?.map view = l[j]?.map view := by
  rw [List.getElem?_modify]
  cases l[j]? with
  | none => rfl
  | some x =>
    refine congrArg some ?_
    split
    · exact hf x
    · rfl

theorem quiet_directions {f : Outgoing → Outgoing}
    (hf : ∀ o, ((f o).direction.ivDirection, (f o).direction.seq) =
      (o.direction.ivDirection, o.direction.seq)) :
    s.Quiet { s with directions := s.directions.modify i f } := by
  refine ⟨rfl, fun x v h => ?_⟩
  cases x with
  | pipeline => exact h
  | direction => exact (map_getElem?_modify hf).trans h

theorem quiet_pipelines {f : AudioPipeline → AudioPipeline}
    (hf : ∀ p, ((f p).ivDirection, (f p).nextSendSeq) = (p.ivDirection, p.nextSendSeq)) :
    s.Quiet { s with pipelines := s.pipelines.modify i f } := by
  refine ⟨rfl, fun x v h => ?_⟩
  cases x with
  | direction => exact h
  | pipeline => exact (map_getElem?_modify hf).trans h

theorem quiet_closeDirection : s.Quiet (s.closeDirection i) := quiet_directions fun _ => rfl

theorem quiet_closePipeline : s.Quiet (s.closePipeline i) := quiet_pipelines fun _ => rfl

theorem quiet_append_direction :
    s.Quiet { s with directions := s.directions ++ [o] } := by
  refine ⟨rfl, fun x v h => ?_⟩
  cases x with
  | pipeline => exact h
  | direction j =>
    obtain ⟨o', ho, rfl⟩ := Option.map_eq_some_iff.mp h
    rw [counted, List.getElem?_append_left (List.getElem?_eq_some_iff.mp ho).1, ho]
    rfl

theorem quiet_append_pipeline :
    s.Quiet { s with pipelines := s.pipelines ++ [p] } := by
  refine ⟨rfl, fun x v h => ?_⟩
  cases x with
  | direction => exact h
  | pipeline j =>
    obtain ⟨p', hp, rfl⟩ := Option.map_eq_some_iff.mp h
    rw [counted, List.getElem?_append_left (List.getElem?_eq_some_iff.mp hp).1, hp]
    rfl

theorem quiet_stopOutgoingVideo : s.Quiet (s.stopOutgoingVideo d kind) := by
  rw [stopOutgoingVideo]
  split
  · exact .refl s
  · exact quiet_setManager.trans quiet_closeDirection

theorem quiet_stopMedia {start : Option Nat} : s.Quiet (s.stopMedia d start) :=
  quiet_stopOutgoingVideo.spawn

theorem quiet_startMedia : s.Quiet (s.startMedia d) := quiet_setManager.trans quiet_stopMedia

theorem quiet_startOutgoingVideo : s.Quiet (s.startOutgoingVideo d kind) := by
  rw [startOutgoingVideo]
  split
  · exact quiet_setManager
  split
  · exact quiet_setManager.spawn
  · split
    · exact quiet_setManager
    · exact (quiet_setManager.trans quiet_stopOutgoingVideo).spawn

theorem quiet_stopMediaEffect : s.Quiet (s.stopMediaEffect d) :=
  quiet_setManager.trans quiet_stopMedia

theorem quiet_stopVideoEffect : s.Quiet (s.stopVideoEffect d kind) :=
  quiet_setManager.trans quiet_stopOutgoingVideo

theorem quiet_activate {camera : Bool} : s.Quiet (s.activate d m camera) := by
  rw [activate]
  split
  · exact (quiet_setManager.trans quiet_startMedia).trans quiet_startOutgoingVideo
  · exact quiet_setManager.trans quiet_startMedia

theorem quiet_setLocalMedia {on : Bool} : s.Quiet (s.setLocalMedia d kind on) := by
  rw [setLocalMedia]
  split
  · exact .refl s
  split
  · exact .refl s
  split
  · exact .refl s
  · split
    · exact quiet_setManager.trans quiet_startOutgoingVideo
    · exact quiet_setManager.trans quiet_stopVideoEffect

theorem quiet_endCall : s.Quiet (s.endCall d) := by
  rw [endCall]
  split
  · exact .refl s
  · exact quiet_setManager.trans quiet_stopMediaEffect

theorem quiet_dispatch {event : CallEvent} : s.Quiet (s.dispatch d event) := by
  cases event with
  | remoteOffer remoteVideo =>
    rw [dispatch]
    split
    · exact .refl s
    · exact quiet_setManager
  | localAccept camera | remoteAccept video remoteVideo =>
    rw [dispatch]
    split
    · exact .refl s
    · exact quiet_activate
  | localReject =>
    rw [dispatch]
    split
    · exact .refl s
    · exact quiet_setManager.trans quiet_stopMediaEffect
  | dropped =>
    rw [dispatch]
    split
    · exact quiet_setManager
    · exact .refl s
  | ended => exact quiet_endCall
  | toggleMute =>
    rw [dispatch]
    split
    · exact .refl s
    split
    · exact quiet_setManager
    · exact quiet_setManager.trans (quiet_pipelines fun _ => rfl)
  | localMedia kind on => exact quiet_setLocalMedia

theorem quiet_mediaFailed : s.Quiet (s.mediaFailed d generation) := by
  rw [mediaFailed]
  split
  · exact quiet_endCall
  · exact .refl s

theorem quiet_videoFailed : s.Quiet (s.videoFailed d kind generation) := by
  rw [videoFailed]
  split
  · exact quiet_setLocalMedia
  · exact .refl s

theorem quiet_resumeTask {ok : Bool} : s.Quiet (s.resumeTask d task ok) := by
  cases task with
  | stoppingCamera start => exact quiet_stopOutgoingVideo.spawn
  | stoppingScreen start =>
    refine Quiet.spawn ?_
    split
    · exact quiet_setManager
    · exact quiet_setManager.trans quiet_closePipeline
  | stoppingPipeline start =>
    cases start with
    | none => exact .refl s
    | some generation =>
      rw [resumeTask]
      split
      · exact quiet_spawn
      · exact .refl s
  | importingMedia generation =>
    rw [resumeTask]
    split
    · exact quiet_mediaFailed
    split
    · exact quiet_setManager.spawn
    · exact quiet_setManager
  | openingPipeline generation =>
    rw [resumeTask]
    split
    · exact quiet_mediaFailed
    · split
      · exact quiet_append_pipeline.spawn
      · exact .refl s
  | startingPipeline generation i =>
    rw [resumeTask]
    split
    · exact quiet_mediaFailed
    · split
      · exact quiet_setManager.trans (quiet_pipelines fun _ => rfl)
      · exact quiet_closePipeline
  | importingVideo kind generation =>
    rw [resumeTask]
    split
    · exact .refl s
    dsimp only
    split
    · exact (quiet_setManager.trans quiet_stopOutgoingVideo).spawn
    · exact quiet_setManager
  | stoppingVideo kind generation =>
    rw [resumeTask]
    split
    · exact quiet_append_direction.spawn
    · exact .refl s
  | openingVideo kind generation i =>
    rw [resumeTask]
    split
    · exact quiet_closeDirection.trans quiet_videoFailed
    · split
      · exact Quiet.spawn (quiet_directions fun _ => rfl)
      · exact quiet_closeDirection
  | startingVideo kind generation i =>
    rw [resumeTask]
    split
    · exact quiet_closeDirection.trans quiet_videoFailed
    · split
      · exact quiet_setManager
      · exact quiet_closeDirection

/-! ## What is encrypted -/

/-- Nothing is encrypted, though a counter may move: without a key the cipher refuses. -/
structure Silent (s s' : Call) : Prop where
  log : s'.log = s.log
  counted : ∀ x v, s.counted x = some v → ∃ n, v.2 ≤ n ∧ s'.counted x = some (v.1, n)

theorem Quiet.silent (h : s.Quiet s') : s.Silent s' :=
  ⟨h.log, fun x v hx => ⟨v.2, Nat.le_refl _, h.counted x v hx⟩⟩

/-- Something is encrypted under the next number of a source. -/
structure Taken (s s' : Call) (x : Source) : Prop where
  exists_number : ∃ direction n plaintext, s.counted x = some (direction, n) ∧
    s'.counted x = some (direction, addOne n) ∧
    s'.log = s.log ++ [⟨x, n, buildCallIv direction n, plaintext⟩]
  others : ∀ y, y ≠ x → s'.counted y = s.counted y

theorem counted_set_direction (ho : s.directions[i]? = some o) : counted { s with
      directions := s.directions.set i { o with direction := direction }, log := log } =
    Function.update s.counted (.direction i) (some (direction.ivDirection, direction.seq)) := by
  obtain ⟨hi, -⟩ := List.getElem?_eq_some_iff.mp ho
  funext x
  cases x with
  | pipeline => rfl
  | direction j =>
    by_cases hj : i = j
    · subst hj
      rw [Function.update_self, counted, List.getElem?_set_self hi]
      rfl
    · rw [Function.update_of_ne (fun h => hj (Source.direction.inj h).symm), counted, counted,
        List.getElem?_set_ne hj]

theorem counted_set_pipeline {p' : AudioPipeline} (hp : s.pipelines[i]? = some p) :
    counted { s with pipelines := s.pipelines.set i p', log := log } =
      Function.update s.counted (.pipeline i) (some (p'.ivDirection, p'.nextSendSeq)) := by
  obtain ⟨hi, -⟩ := List.getElem?_eq_some_iff.mp hp
  funext x
  cases x with
  | direction => rfl
  | pipeline j =>
    by_cases hj : i = j
    · subst hj
      rw [Function.update_self, counted, List.getElem?_set_self hi]
      rfl
    · rw [Function.update_of_ne (fun h => hj (Source.pipeline.inj h).symm), counted, counted,
        List.getElem?_set_ne hj]

theorem encryptFragment_cases (ho : s.directions[i]? = some o)
    {call : EncodeCall}
    (hdirection : direction.ivDirection = o.direction.ivDirection)
    (hseq : direction.seq = addOne o.direction.seq) (hcall : call.fragmentSeq = o.direction.seq) :
    s.Silent (s.encryptFragment i o direction (some call)) ∨
      o.hasKey = true ∧ s.Taken (s.encryptFragment i o direction (some call)) (.direction i) := by
  have hcounted : s.counted (.direction i) = some (o.direction.ivDirection, o.direction.seq) := by
    rw [counted, ho]
    rfl
  rw [encryptFragment]
  split
  next hkey =>
    refine .inr ⟨hkey, ⟨_, _, call.part, hcounted, ?_, ?_⟩, fun y hy => ?_⟩
    · rw [counted_set_direction ho, Function.update_self, hdirection, hseq]
    · rw [hdirection, hcall]
    · rw [counted_set_direction ho, Function.update_of_ne hy]
  · refine .inl ⟨List.append_nil _, fun y v hy => ?_⟩
    rw [counted_set_direction ho]
    by_cases hyi : y = .direction i
    · subst hyi
      cases hcounted.symm.trans hy
      rw [Function.update_self, hdirection, hseq]
      exact ⟨_, le_addOne, rfl⟩
    · rw [Function.update_of_ne hyi]
      exact ⟨v.2, Nat.le_refl _, hy⟩

theorem encryptFragment_none (ho : s.directions[i]? = some o)
    (hdirection : direction.ivDirection = o.direction.ivDirection)
    (hseq : direction.seq = o.direction.seq) :
    s.Silent (s.encryptFragment i o direction none) := by
  have hcounted : s.counted (.direction i) = some (o.direction.ivDirection, o.direction.seq) := by
    rw [counted, ho]
    rfl
  refine ⟨List.append_nil _, fun y v hy => ⟨v.2, Nat.le_refl _, ?_⟩⟩
  rw [encryptFragment, counted_set_direction ho, hdirection, hseq, ← hcounted,
    Function.update_eq_self]
  exact hy

theorem step_cases (h : s.step a = some s') :
    s.Silent s' ∨ ∃ x, s.encrypts a = some x ∧ s.Taken s' x := by
  cases a with
  | dispatch d event =>
    cases h
    exact .inl quiet_dispatch.silent
  | resume j ok =>
    simp only [step] at h
    split at h
    · cases h
    next d task _ =>
    cases h
    have herase : s.Quiet { s with tasks := s.tasks.eraseIdx j } := ⟨rfl, fun _ _ h => h⟩
    exact .inl (herase.trans quiet_resumeTask).silent
  | encoded i chunk =>
    simp only [step] at h
    split at h
    · cases h
    next o ho =>
    split at h
    · cases h
      rw [VideoDirection.handleEncoded]
      split
      · exact .inl (encryptFragment_none ho rfl rfl)
      next hopen =>
      refine Or.imp_right ?_ (encryptFragment_cases ho ?_ ?_ ?_)
      case refine_2 | refine_3 | refine_4 => rfl
      rintro ⟨hkey, htaken⟩
      refine ⟨_, ?_, htaken⟩
      rw [Bool.or_eq_true, not_or, Bool.not_eq_true, Bool.not_eq_true, Bool.not_eq_false'] at hopen
      rw [encrypts, ho, Option.any_some, hkey, hopen.1, hopen.2]
      rfl
    · cases h
  | encrypted i j ok =>
    simp only [step] at h
    split at h
    · cases h
    next o ho =>
    split at h
    · cases h
    next r hr =>
    cases h
    rw [VideoDirection.resumeEncoded] at hr
    split at hr
    · cases hr
    next call hcall =>
    split at hr
    · cases hr
      exact .inl (encryptFragment_none ho rfl rfl)
    next hok =>
    split at hr
    · cases hr
      exact .inl (encryptFragment_none ho rfl rfl)
    next hopen =>
    split at hr
    next hmore =>
      cases hr
      refine Or.imp_right ?_ (encryptFragment_cases ho ?_ ?_ ?_)
      case refine_2 | refine_3 | refine_4 => rfl
      rintro ⟨hkey, htaken⟩
      refine ⟨_, ?_, htaken⟩
      rw [Bool.not_eq_true, Bool.not_eq_false', Bool.and_eq_true] at hok
      rw [Bool.or_eq_true, not_or, Bool.not_eq_true, Bool.not_eq_true, Bool.not_eq_false'] at hopen
      rw [encrypts, ho, Option.any_some, hok.1, hok.2, hopen.1, hopen.2, hcall,
        Option.any_some, decide_eq_true hmore]
      rfl
    · cases hr
      exact .inl (encryptFragment_none ho rfl rfl)
  | packed i framesBytes =>
    simp only [step] at h
    split at h
    · cases h
    next p hp =>
    split at h
    · cases h
      exact .inl (Quiet.refl s).silent
    next hopen =>
    cases h
    have hcounted : s.counted (.pipeline i) = some (p.ivDirection, p.nextSendSeq) := by
      rw [counted, hp]
      rfl
    refine .inr ⟨.pipeline i, ?_, ⟨_, _, framesBytes, hcounted, ?_, rfl⟩, fun y hy => ?_⟩
    · rw [encrypts, hp, Option.any_some, if_pos]
      rw [Bool.not_eq_true] at hopen
      rw [hopen]
      rfl
    · rw [counted_set_pipeline hp, Function.update_self]
      rfl
    · rw [counted_set_pipeline hp, Function.update_of_ne hy]

/-! ## Runs -/

/-- Everything that was encrypted has its number from a source that has counted on, and from the
only one in its direction. -/
structure Sole (s : Call) : Prop where
  numbered : ∀ y ∈ s.log, y.seq < 2 ^ 53 ∧ ∃ direction n, s.counted y.source = some (direction, n) ∧
    y.seq < n ∧ y.iv = buildCallIv direction y.seq
  once : (s.log.map fun y => (y.source, y.seq)).Nodup
  sole : ∀ y ∈ s.log, ∀ z ∈ s.log,
    (s.counted y.source).map Prod.fst = (s.counted z.source).map Prod.fst → y.source = z.source

theorem counted_lt {direction n : Nat} (h : s.counted x = some (direction, n)) :
    direction < 2 ^ 32 := by
  cases x with
  | direction i =>
    obtain ⟨o, -, heq⟩ := Option.map_eq_some_iff.mp h
    cases heq
    exact callVideoIvDirection_lt
  | pipeline i =>
    obtain ⟨p, -, heq⟩ := Option.map_eq_some_iff.mp h
    cases heq
    exact callAudioIvDirection_lt

theorem Sole.noIvReuse (H : s.Sole) : s.NoIvReuse := by
  intro y hy z hz hiv
  obtain ⟨hyseq, direction, n, hycounted, -, hyiv⟩ := H.numbered y hy
  obtain ⟨hzseq, direction', n', hzcounted, -, hziv⟩ := H.numbered z hz
  rw [hyiv, hziv] at hiv
  obtain ⟨rfl, hseq⟩ := buildCallIv_inj (counted_lt hycounted) (counted_lt hzcounted)
    (hyseq.trans (by decide)) (hzseq.trans (by decide)) hiv
  have hsource : y.source = z.source := H.sole y hy z hz (by rw [hycounted, hzcounted]; rfl)
  have hsame : y = z := List.inj_on_of_nodup_map H.once hy hz (Prod.ext hsource hseq)
  rw [hsame]

theorem Sole.silent (H : s.Sole) (h : s.Silent s') : s'.Sole := by
  have hdirection : ∀ y ∈ s.log,
      (s'.counted y.source).map Prod.fst = (s.counted y.source).map Prod.fst := by
    intro y hy
    obtain ⟨-, direction, n, hcounted, -, -⟩ := H.numbered y hy
    obtain ⟨n', -, hcounted'⟩ := h.counted _ _ hcounted
    rw [hcounted, hcounted']
    rfl
  constructor
  · intro y hy
    rw [h.log] at hy
    obtain ⟨hlt, direction, n, hcounted, hn, hiv⟩ := H.numbered y hy
    obtain ⟨n', hle, hcounted'⟩ := h.counted _ _ hcounted
    exact ⟨hlt, direction, n', hcounted', hn.trans_le hle, hiv⟩
  · rw [h.log]
    exact H.once
  · intro y hy z hz heq
    rw [h.log] at hy hz
    rw [hdirection y hy, hdirection z hz] at heq
    exact H.sole y hy z hz heq

theorem Sole.taken (H : s.Sole) (h : s.Taken s' x)
    (hsole : ∀ y ∈ s.log,
      (s.counted y.source).map Prod.fst = (s.counted x).map Prod.fst → y.source = x)
    (hlt : ∀ v, s.counted x = some v → v.2 < 2 ^ 53) : s'.Sole := by
  obtain ⟨direction, n, plaintext, hcounted, hcounted', hlog⟩ := h.exists_number
  have hn : n < 2 ^ 53 := hlt _ hcounted
  have hdirection : ∀ y, (s'.counted y).map Prod.fst = (s.counted y).map Prod.fst := by
    intro y
    by_cases hy : y = x
    · rw [hy, hcounted, hcounted']
      rfl
    · rw [h.others y hy]
  have hbelow : ∀ y ∈ s.log, y.source = x → y.seq < n := by
    intro y hy hx
    obtain ⟨-, direction', n', hcounted'', hlt', -⟩ := H.numbered y hy
    cases hcounted.symm.trans (hx ▸ hcounted'')
    exact hlt'
  constructor
  · intro y hy
    rw [hlog] at hy
    rcases List.mem_append.mp hy with hy | hy
    · obtain ⟨hseq, direction', n', hcounted'', hlt', hiv⟩ := H.numbered y hy
      refine ⟨hseq, ?_⟩
      by_cases hx : y.source = x
      · rw [hx] at hcounted'' ⊢
        cases hcounted.symm.trans hcounted''
        exact ⟨_, _, hcounted', hlt'.trans_le le_addOne, hiv⟩
      · exact ⟨direction', n', (h.others _ hx).trans hcounted'', hlt', hiv⟩
    · obtain rfl := List.mem_singleton.mp hy
      exact ⟨hn, direction, _, hcounted', lt_addOne hn, rfl⟩
  · rw [hlog, List.map_append]
    refine List.nodup_append'.mpr ⟨H.once, List.nodup_singleton _, ?_⟩
    intro v hv hv'
    obtain ⟨y, hy, rfl⟩ := List.mem_map.mp hv
    obtain ⟨hx, hseq⟩ := Prod.mk.inj (List.mem_singleton.mp hv')
    exact absurd hseq (hbelow y hy hx).ne
  · intro y hy z hz heq
    rw [hdirection, hdirection] at heq
    rw [hlog] at hy hz
    rcases List.mem_append.mp hy with hy | hy <;> rcases List.mem_append.mp hz with hz | hz
    · exact H.sole y hy z hz heq
    · obtain rfl := List.mem_singleton.mp hz
      exact hsole y hy heq
    · obtain rfl := List.mem_singleton.mp hy
      exact (hsole z hz heq.symm).symm
    · rw [List.mem_singleton.mp hy, List.mem_singleton.mp hz]

theorem Sole.step (H : s.Sole) (hok : s.soleSource a = true) (h : s.step a = some s') :
    s'.Sole := by
  rcases step_cases h with hsilent | ⟨x, hx, htaken⟩
  · exact H.silent hsilent
  rw [soleSource, hx, Bool.and_eq_true, List.all_eq_true, Option.all_eq_true] at hok
  refine H.taken htaken (fun y hy heq => ?_) fun v hv => of_decide_eq_true (hok.2 v hv)
  have hy := hok.1 y hy
  rw [Bool.or_eq_true, decide_eq_true_eq, decide_eq_true_eq] at hy
  exact hy.resolve_right fun hne => hne heq

/-- In every run in which whatever is encrypted in a direction of a stream is numbered by one source,
no vector is used for two plaintexts. -/
theorem noIvReuse_of_soleSource {acts : List CallAction}
    (h : Run step (fun s a => s.soleSource a = true) offered acts s) : s.NoIvReuse := by
  refine Sole.noIvReuse (h.invariant (fun hok H hstep => H.step hok hstep) ?_)
  exact ⟨fun y hy => absurd hy List.not_mem_nil, List.nodup_nil,
    fun y hy => absurd hy List.not_mem_nil⟩

/-- Both devices send audio and their camera. -/
theorem noIvReuse_of_soleSource_both : ∃ acts s,
    Run step (fun s a => s.soleSource a = true) offered acts s ∧
      s.log.map (fun y => (y.source, y.seq)) = [(.direction 0, 0), (.pipeline 0, 0),
        (.direction 1, 0), (.pipeline 1, 0), (.direction 0, 1), (.pipeline 1, 1)] ∧
      s.NoIvReuse := by
  -- what has to be awaited before audio and camera are sent
  let awaited : List CallAction :=
    [.resume 0 true] ++ List.replicate 5 (.resume 1 true) ++ List.replicate 4 (.resume 0 true)
  let acts : List CallAction :=
    [.dispatch 1 (.remoteOffer true), .dispatch 1 (.localAccept true)] ++ awaited ++
    [.dispatch 0 (.remoteAccept true true)] ++ awaited ++
    [.encoded 0 ⟨[1], true, 0, none⟩, .packed 0 [2], .encoded 1 ⟨[3], true, 0, none⟩, .packed 1 [4],
      .encrypted 0 0 true, .encoded 0 ⟨[5], false, 40, none⟩, .packed 1 [6]]
  have hok : allowed step soleSource offered acts = true := by decide +kernel
  have hrun : (exec step offered acts).map (fun s => s.log.map fun y => (y.source, y.seq)) =
      some [(.direction 0, 0), (.pipeline 0, 0), (.direction 1, 0), (.pipeline 1, 0),
        (.direction 0, 1), (.pipeline 1, 1)] := by
    decide +kernel
  obtain ⟨s, hs, hend⟩ := Option.map_eq_some_iff.mp hrun
  have hall := Run.of_allowed hok hs
  exact ⟨acts, s, hall, hend, noIvReuse_of_soleSource hall⟩

/-- A camera that is switched off and on again begins to count anew, under the same key. -/
theorem camera_again_reuses : ¬ ∀ acts s, FreeRun step offered acts s → s.NoIvReuse := by
  let acts : List CallAction := [
    .dispatch 1 (.remoteOffer true), .dispatch 1 (.localAccept false),
    .dispatch 0 (.remoteAccept true true),
    .resume 2 true, .resume 2 true, .resume 2 true, .resume 2 true,
    .encoded 0 ⟨[1], true, 0, none⟩, .encrypted 0 0 true,
    .dispatch 0 (.localMedia .camera false), .dispatch 0 (.localMedia .camera true),
    .resume 2 true, .resume 2 true, .resume 2 true, .encoded 1 ⟨[2], true, 0, none⟩]
  have hrun : (exec step offered acts).map (fun s => s.log) = some [
      ⟨.direction 0, 0, buildCallIv callIvCamOut 0, [1]⟩,
      ⟨.direction 1, 0, buildCallIv callIvCamOut 0, [2]⟩] := by
    decide +kernel
  obtain ⟨s, hs, hlog⟩ := Option.map_eq_some_iff.mp hrun
  intro H
  have hreuse : s.NoIvReuse := H acts s (.of_exec hs)
  rw [NoIvReuse, hlog] at hreuse
  have heq : ([1] : Bytes) = [2] := hreuse _ List.mem_cons_self _
    (List.mem_cons_of_mem _ List.mem_cons_self) rfl
  exact absurd heq (by decide)

end Bluetalk.Calls.Call

import Bluetalk.Calls.Numbering
import Bluetalk.Calls.Reassembly

/-!
# Frames arrive whole

The invariant of a direction of a call whose frames are numbered one after the other, and what it
says of the frames that come out. Where the fragments of two frames are numbered in turn, it fails.
-/

open List Option

namespace Bluetalk.Calls

/-- Whether a fragment of a frame has arrived. -/
def arrived (delivered : List Sent) (i f : Nat) : Bool := decide ((i, f) ∈ delivered.map Sent.place)

variable {c : VideoCall} {C : CallCipher} {frames : List EncodedChunk} {delivered : List Sent}
  {r : Reassembler} {output : List Assembled} {chunk : EncodedChunk} {x : Sent} {now : Int}
  {i f : Nat}

theorem arrived_append : arrived (delivered ++ [x]) i f =
    (arrived delivered i f || decide ((i, f) = x.place)) := by
  rw [arrived, map_append, map_singleton, Bool.eq_iff_iff, decide_eq_true_eq,
    mem_append, mem_singleton, Bool.or_eq_true, arrived, decide_eq_true_eq,
    decide_eq_true_eq]

theorem arrived_append_of_ne (h : i ≠ x.frame) :
    arrived (delivered ++ [x]) i = arrived delivered i := by
  funext f
  have hne : ¬ (i, f) = x.place := fun heq => h (Prod.mk.inj heq).1
  rw [arrived_append, decide_eq_false hne, Bool.or_false]

theorem arrived_append_self :
    arrived (delivered ++ [x]) x.frame f = (arrived delivered x.frame f || decide (f = x.frag)) := by
  rw [arrived_append, Sent.place]
  simp only [Prod.mk.injEq, true_and]

/-- What the receiver has of the frames whose fragments have arrived. -/
structure Receiving (c : VideoCall) (frames : List EncodedChunk) (delivered : List Sent)
    (r : Reassembler) (output : List Assembled) : Prop where
  ids : (r.pending.map PendingFrame.id).Nodup
  stands : ∀ e ∈ r.pending, ∃ i chunk, frames[i]? = some chunk ∧
    e.Stands c chunk (startOf frames i) (arrived delivered i) ∧
    (∃ f < chunk.fragmentCount, arrived delivered i f = true) ∧
    ∃ f < chunk.fragmentCount, arrived delivered i f = false
  present : ∀ i chunk, frames[i]? = some chunk → (∃ f, arrived delivered i f = true) →
    (∃ f < chunk.fragmentCount, arrived delivered i f = false) →
    ∃ e ∈ r.pending, e.id = (c.kind, (startOf frames i : Int))
  output : ∃ done : List Nat, done.Nodup ∧
    output = done.filterMap (fun i => frames[i]?.map c.original) ∧
    ∀ i, i ∈ done ↔ ∃ chunk, frames[i]? = some chunk ∧
      ∀ f < chunk.fragmentCount, arrived delivered i f = true

namespace Receiving

theorem start : Receiving c [] [] {} [] where
  ids := nodup_nil
  stands _ h := absurd h not_mem_nil
  present i chunk h := by cases h
  output := ⟨[], nodup_nil, rfl, fun i => ⟨fun h => absurd h not_mem_nil,
    fun ⟨_, h, _⟩ => by cases h⟩⟩

theorem encoded (H : Receiving c frames delivered r output)
    (hframes : ∀ x ∈ delivered, x.frame < frames.length) :
    Receiving c (frames ++ [chunk]) delivered r output := by
  have hlater : ∀ i, frames.length ≤ i → ∀ f, arrived delivered i f = false := by
    intro i hi f
    refine decide_eq_false fun h => ?_
    obtain ⟨x, hx, hplace⟩ := mem_map.mp h
    have hframe : x.frame = i := (Prod.mk.inj hplace).1
    have hlt := hframes x hx
    omega
  have hold : ∀ {i chunk'}, frames[i]? = some chunk' →
      (frames ++ [chunk])[i]? = some chunk' ∧ startOf (frames ++ [chunk]) i = startOf frames i := by
    intro i chunk' hi
    have hlt := (List.getElem?_eq_some_iff.mp hi).1
    exact ⟨(List.getElem?_append_left hlt).trans hi, startOf_append hlt.le⟩
  have hback : ∀ {i chunk'}, (frames ++ [chunk])[i]? = some chunk' →
      (∃ f, arrived delivered i f = true) → frames[i]? = some chunk' := by
    intro i chunk' hi ⟨f, hf⟩
    have hlt : i < frames.length := by
      by_contra hge
      rw [hlater i (Nat.not_lt.mp hge) f] at hf
      exact Bool.false_ne_true hf
    rwa [getElem?_append_left hlt] at hi
  constructor
  case ids => exact H.ids
  case stands =>
    intro e he
    obtain ⟨i, chunk', hi, hstands, hsome, hnone⟩ := H.stands e he
    obtain ⟨hi', hstart⟩ := hold hi
    exact ⟨i, chunk', hi', hstart ▸ hstands, hsome, hnone⟩
  case present =>
    intro i chunk' hi hsome hnone
    have hi := hback hi hsome
    obtain ⟨e, he, hid⟩ := H.present i chunk' hi hsome hnone
    exact ⟨e, he, (hold hi).2 ▸ hid⟩
  case output =>
    obtain ⟨done, hnodup, hout, hdone⟩ := H.output
    refine ⟨done, hnodup, ?_, fun i => ?_⟩
    · rw [hout]
      refine filterMap_congr fun i hi => ?_
      obtain ⟨chunk', hget, -⟩ := (hdone i).mp hi
      rw [hget, (hold hget).1]
    rw [hdone]
    constructor
    · rintro ⟨chunk', hi, hall⟩
      exact ⟨chunk', (hold hi).1, hall⟩
    · rintro ⟨chunk', hi, hall⟩
      exact ⟨chunk', hback hi ⟨0, hall 0 length_splitVideoFrame_pos⟩, hall⟩

variable {e : PendingFrame}

theorem stands_inj (H : Receiving c frames delivered r output) (he : e ∈ r.pending) (hi : i < frames.length)
    (hid : e.id = (c.kind, (startOf frames i : Int))) : ∃ chunk, frames[i]? = some chunk ∧
      e.Stands c chunk (startOf frames i) (arrived delivered i) ∧
      (∃ f < chunk.fragmentCount, arrived delivered i f = true) ∧
      ∃ f < chunk.fragmentCount, arrived delivered i f = false := by
  obtain ⟨i', chunk, hi', hstands, hsome, hnone⟩ := H.stands e he
  have hstart : startOf frames i' = startOf frames i :=
    Int.ofNat.inj (Prod.mk.inj (hstands.id.symm.trans hid)).2
  obtain rfl := startOf_inj (List.getElem?_eq_some_iff.mp hi').1 hi hstart
  exact ⟨chunk, hi', hstands, hsome, hnone⟩

theorem waits (H : Receiving c frames delivered r output) (hx : x.call.Placed frames)
    (hnew : arrived delivered x.frame x.frag = false) (he : e.Stands c x.call.chunk (startOf frames x.frame) (arrived (delivered ++ [x]) x.frame))
    (hmore : ∃ f < x.call.chunk.fragmentCount, arrived (delivered ++ [x]) x.frame f = false) :
    Receiving c frames (delivered ++ [x]) (r.set e) output := by
  have hself : arrived (delivered ++ [x]) x.frame x.frag = true := by
    rw [arrived_append_self, decide_eq_true rfl, Bool.or_true]
  have hplace : x.frag < x.call.chunk.fragmentCount := hx.length_parts ▸ hx.sound.lt
  constructor
  case ids => exact nodup_put H.ids
  case stands =>
    intro e' he'
    rcases (mem_put H.ids).mp he' with rfl | ⟨hin, hne⟩
    · exact ⟨x.frame, x.call.chunk, hx.chunk, he, ⟨x.frag, hplace, hself⟩, hmore⟩
    obtain ⟨i, chunk, hi, hstands, hsome, hnone⟩ := H.stands e' hin
    have hother : i ≠ x.frame := by
      rintro rfl
      exact hne (hstands.id.trans he.id.symm)
    rw [← arrived_append_of_ne hother] at hstands hsome hnone
    exact ⟨i, chunk, hi, hstands, hsome, hnone⟩
  case present =>
    intro i chunk hi hsome hnone
    by_cases hself : i = x.frame
    · subst hself
      exact ⟨e, (mem_put H.ids).mpr (.inl rfl), he.id⟩
    rw [arrived_append_of_ne hself] at hsome hnone
    obtain ⟨e', hin, hid⟩ := H.present i chunk hi hsome hnone
    refine ⟨e', (mem_put H.ids).mpr (.inr ⟨hin, fun heq => hself ?_⟩), hid⟩
    have hstart : startOf frames i = startOf frames x.frame :=
      Int.ofNat.inj (Prod.mk.inj (hid.symm.trans (heq.trans he.id))).2
    exact startOf_inj (List.getElem?_eq_some_iff.mp hi).1 hx.frame_lt hstart
  case output =>
    obtain ⟨done, hnodup, hout, hdone⟩ := H.output
    refine ⟨done, hnodup, hout, fun i => ?_⟩
    rw [hdone]
    by_cases hself : i = x.frame
    · subst hself
      constructor
      · rintro ⟨chunk, hi, hall⟩
        obtain rfl := some.inj (hx.chunk.symm.trans hi)
        exact absurd (hall _ hplace) (by rw [hnew]; exact Bool.false_ne_true)
      rintro ⟨chunk, hi, hall⟩
      obtain rfl := some.inj (hx.chunk.symm.trans hi)
      obtain ⟨f, hf, hgone⟩ := hmore
      exact absurd (hall f hf) (by rw [hgone]; exact Bool.false_ne_true)
    · rw [arrived_append_of_ne hself]

theorem done (H : Receiving c frames delivered r output) (hx : x.call.Placed frames)
    (hnew : arrived delivered x.frame x.frag = false)
    (hall : ∀ f < x.call.chunk.fragmentCount, arrived (delivered ++ [x]) x.frame f = true) :
    Receiving c frames (delivered ++ [x]) (r.delete (c.kind, (startOf frames x.frame : Int)))
      (output ++ [c.original x.call.chunk]) := by
  have hplace : x.frag < x.call.chunk.fragmentCount := hx.length_parts ▸ hx.sound.lt
  have hmem : ∀ e, e ∈ (r.delete (c.kind, (startOf frames x.frame : Int))).pending ↔
      e ∈ r.pending ∧ e.id ≠ (c.kind, (startOf frames x.frame : Int)) := by
    intro e
    rw [Reassembler.delete, mem_filter, decide_eq_true_eq]
  constructor
  case ids => exact (filter_sublist.map _).nodup H.ids
  case stands =>
    intro e he
    obtain ⟨hin, hne⟩ := (hmem e).mp he
    obtain ⟨i, chunk, hi, hstands, hsome, hnone⟩ := H.stands e hin
    have hother : i ≠ x.frame := by
      rintro rfl
      exact hne hstands.id
    rw [← arrived_append_of_ne hother] at hstands hsome hnone
    exact ⟨i, chunk, hi, hstands, hsome, hnone⟩
  case present =>
    intro i chunk hi hsome hnone
    by_cases hself : i = x.frame
    · subst hself
      obtain rfl := some.inj (hx.chunk.symm.trans hi)
      obtain ⟨f, hf, hgone⟩ := hnone
      exact absurd (hall f hf) (by rw [hgone]; exact Bool.false_ne_true)
    rw [arrived_append_of_ne hself] at hsome hnone
    obtain ⟨e, hin, hid⟩ := H.present i chunk hi hsome hnone
    refine ⟨e, (hmem e).mpr ⟨hin, fun heq => hself ?_⟩, hid⟩
    have hstart : startOf frames i = startOf frames x.frame :=
      Int.ofNat.inj (Prod.mk.inj (hid.symm.trans heq)).2
    exact startOf_inj (List.getElem?_eq_some_iff.mp hi).1 hx.frame_lt hstart
  case output =>
    obtain ⟨done, hnodup, hout, hdone⟩ := H.output
    have hfresh : x.frame ∉ done := by
      intro hin
      obtain ⟨chunk, hi, hold⟩ := (hdone _).mp hin
      obtain rfl := some.inj (hx.chunk.symm.trans hi)
      exact absurd (hold _ hplace) (by rw [hnew]; exact Bool.false_ne_true)
    refine ⟨done ++ [x.frame], ?_, ?_, fun i => ?_⟩
    · rw [nodup_append]
      refine ⟨hnodup, nodup_singleton _, fun a ha b hb heq => hfresh ?_⟩
      rwa [← mem_singleton.mp hb, ← heq]
    · have hget : frames[x.frame]? = some x.call.chunk := hx.chunk
      rw [filterMap_append, ← hout, filterMap_cons, hget]
      rfl
    rw [mem_append, mem_singleton, hdone]
    by_cases hself : i = x.frame
    · subst hself
      exact iff_of_true (.inr rfl) ⟨x.call.chunk, hx.chunk, hall⟩
    · rw [arrived_append_of_ne hself]
      exact or_iff_left hself

theorem received (H : Receiving c frames delivered r output) (hx : x.call.Placed frames)
    (hnew : arrived delivered x.frame x.frag = false)
    (hroom : VideoStream.hasRoom r x c.kind now = true) :
    Receiving c frames (delivered ++ [x]) (r.push (c.fragment x.call) now).1
      (output ++ (r.push (c.fragment x.call) now).2.toList) := by
  rw [VideoStream.hasRoom, Bool.and_eq_true, List.all_eq_true] at hroom
  obtain ⟨hfresh, hroom⟩ := hroom
  have hfresh : ∀ e ∈ r.pending, now - e.createdAt ≤ videoReassemblyTtlMs :=
    fun e he => of_decide_eq_true (hfresh e he)
  have hplace : x.frag < x.call.chunk.fragmentCount := hx.length_parts ▸ hx.sound.lt
  have hhas : ∀ f, arrived (delivered ++ [x]) x.frame f =
      (arrived delivered x.frame f || decide (f = x.call.i)) := fun f => arrived_append_self
  by_cases hone : x.call.parts.length = 1
  · -- nothing of the frame is pending, as it has no other fragment
    have hkept : r.delete (c.kind, (startOf frames x.frame : Int)) = r := by
      have hfilter : r.pending.filter
          (fun e => e.id ≠ (c.kind, (startOf frames x.frame : Int))) = r.pending := by
        refine filter_eq_self.mpr fun e he => decide_eq_true fun hid => ?_
        obtain ⟨chunk, hget, -, ⟨f, hf, hsome⟩, -⟩ := H.stands_inj he hx.frame_lt hid
        obtain rfl := some.inj (hx.chunk.symm.trans hget)
        rw [← hx.length_parts, hone] at hf hplace
        have heq : f = x.frag := by omega
        rw [heq] at hsome
        exact Bool.false_ne_true (hnew.symm.trans hsome)
      rw [Reassembler.delete, hfilter]
    have hall : ∀ f < x.call.chunk.fragmentCount,
        arrived (delivered ++ [x]) x.frame f = true := by
      intro f hf
      rw [← hx.length_parts, hone] at hf hplace
      have heq : f = x.frag := by omega
      rw [hhas, heq]
      exact Bool.or_eq_true_iff.mpr (.inr (decide_eq_true rfl))
    have hdone := H.done hx hnew hall
    rw [hkept] at hdone
    rw [Reassembler.push_fragment hx.sound hfresh, if_pos hone]
    exact hdone
  · rw [decide_eq_false hone, Bool.false_or, Bool.and_eq_true, decide_eq_true_eq] at hroom
    obtain ⟨hbytes, hopen⟩ := hroom
    have hstart := hx.start
    cases hget : r.get (c.kind, (x.call.fragmentSeq : Int) - x.call.i) with
    | none =>
      have hnothing : ∀ f, arrived delivered x.frame f = false := by
        intro f
        by_contra hf
        rw [Bool.not_eq_false] at hf
        obtain ⟨e, he, hid⟩ := H.present _ _ hx.chunk ⟨f, hf⟩ ⟨x.frag, hplace, hnew⟩
        have hnot := find?_eq_none.mp hget e he
        rw [hstart] at hnot
        exact hnot (decide_eq_true hid)
      have hopen : r.streamCount c.kind < videoMaxOpenFrames := by
        have hid : r.get (c.kind, (x.seq : Int) - x.frag) = none := hget
        rw [hid] at hopen
        exact of_decide_eq_true hopen
      have hbegun : ∀ f, arrived (delivered ++ [x]) x.frame f = decide (f = x.call.i) := by
        intro f
        rw [hhas, hnothing f, Bool.false_or]
      obtain ⟨e, he, hpush⟩ := Reassembler.push_begin hx.sound hone hfresh hbytes hopen hget hstart
        hbegun
      have hmore : ∃ f < x.call.chunk.fragmentCount,
          arrived (delivered ++ [x]) x.frame f = false := by
        have hcount := hx.length_parts
        by_cases hzero : x.call.i = 0
        · exact ⟨1, by omega, (hbegun 1).trans (decide_eq_false (by omega))⟩
        · exact ⟨0, by omega, (hbegun 0).trans (decide_eq_false (by omega))⟩
      rw [hpush, toList_none, append_nil]
      exact H.waits hx hnew he hmore
    | some e =>
      have hin : e ∈ r.pending := mem_of_find?_eq_some hget
      have hid : e.id = (c.kind, (startOf frames x.frame : Int)) := by
        have hfound : e.id = (c.kind, (x.call.fragmentSeq : Int) - x.call.i) :=
          of_decide_eq_true (find?_some (p := fun e => decide (PendingFrame.id e = _)) hget)
        exact hfound.trans (congrArg (Prod.mk c.kind) hstart)
      obtain ⟨chunk, hchunk, he, -, -⟩ := H.stands_inj hin hx.frame_lt hid
      obtain rfl := some.inj (hx.chunk.symm.trans hchunk)
      rcases Reassembler.push_more hx.sound hone hfresh hbytes hget he hnew hhas with
        ⟨e', he', hmore, hpush⟩ | ⟨hall, hpush⟩
      · rw [hpush, toList_none, append_nil]
        exact H.waits hx hnew he' (hx.length_parts ▸ hmore)
      · rw [hpush, hid, toList_some]
        exact H.done hx hnew (hx.length_parts ▸ hall)

end Receiving

theorem filterMap_range_getElem? {α β : Type} (g : α → β) (l : List α) :
    ((List.range l.length).filterMap fun i => l[i]?.map g) = l.map g := by
  induction l with
  | nil => rfl
  | cons x l ih =>
    rw [length_cons, range_succ_eq_map, filterMap_cons, filterMap_map]
    exact congrArg (g x :: ·) ih

namespace VideoStream

/-- What holds of a direction all along. -/
structure Invariant (c : VideoCall) (C : CallCipher) (s : VideoStream) : Prop where
  numbering : Numbering c C s.sender s.frames s.sent
  traffic : s.sent.Perm (s.delivered ++ s.inFlight)
  receiving : Receiving c s.frames s.delivered s.reassembler s.output

namespace Invariant

variable {s s' : VideoStream} {a : StreamAction}

theorem start : Invariant c C (VideoStream.start c) where
  numbering := Numbering.start
  traffic := List.Perm.nil
  receiving := Receiving.start

theorem of_delivered (H : Invariant c C s) (hx : x ∈ s.delivered) :
    x.call.Placed s.frames ∧ x.message = c.message C x.call :=
  H.numbering.packets x (H.traffic.mem_iff.mpr (mem_append_left _ hx))

theorem step (hC : C.Lawful) (hok : s.unbroken c a = true) (H : Invariant c C s)
    (h : VideoStream.step C c s a = some s') : Invariant c C s' := by
  match a with
  | .encoded chunk =>
    obtain rfl := some.inj h
    rw [unbroken, Bool.and_eq_true, Bool.and_eq_true, List.all_eq_true, decide_eq_true_eq] at hok
    obtain ⟨⟨hchunk, hlast⟩, hbound⟩ := hok
    exact {
      numbering := H.numbering.encoded hchunk (fun call hcall => of_decide_eq_true (hlast call hcall))
        hbound
      traffic := H.traffic
      receiving := H.receiving.encoded fun x hx => (H.of_delivered hx).1.frame_lt }
  | .encrypted j =>
    rw [VideoStream.step] at h
    split at h
    · cases h
    next r hr =>
    obtain ⟨call, hsent, -, hnumbering⟩ := H.numbering.resumed hr
    obtain rfl := some.inj h
    rw [hsent]
    refine ⟨hnumbering, ?_, H.receiving⟩
    rw [← append_assoc]
    exact H.traffic.append_right _
  | .deliver k now =>
    rw [VideoStream.step] at h
    split at h
    · cases h
    next x hx =>
    obtain ⟨hk, hget⟩ := List.getElem?_eq_some_iff.mp hx
    have hin : x ∈ s.inFlight := List.mem_of_getElem? hx
    obtain ⟨hplaced, hmessage⟩ :=
      H.numbering.packets x (H.traffic.mem_iff.mpr (mem_append_right _ hin))
    have hroom : hasRoom s.reassembler x c.kind now = true := by
      rw [unbroken, hx] at hok
      exact hok
    have hperm : (s.delivered ++ s.inFlight).Perm
        (s.delivered ++ [x] ++ s.inFlight.eraseIdx k) := by
      rw [append_assoc]
      refine List.Perm.append_left _ ?_
      exact hget ▸ (getElem_cons_eraseIdx_perm hk).symm
    have hnew : arrived s.delivered x.frame x.frag = false := by
      refine decide_eq_false fun hmem => ?_
      have hplaces := (H.traffic.map Sent.place).nodup_iff.mp H.numbering.places
      rw [map_append, nodup_append] at hplaces
      exact hplaces.2.2 _ hmem _ (mem_map_of_mem hin) rfl
    rw [hmessage, sanitizeCallVideo_message hC hplaced.sound] at h
    dsimp only at h
    rw [pushRemotePacket_packet hC hplaced.sound] at h
    obtain rfl := some.inj h
    exact ⟨H.numbering, H.traffic.trans hperm, H.receiving.received hplaced hnew hroom⟩

theorem numbered (H : Invariant c C s) : ∀ x ∈ s.sent, ∀ y ∈ s.sent,
    x.frame = y.frame ↔ (x.seq : Int) - x.frag = (y.seq : Int) - y.frag := by
  intro x hx y hy
  obtain ⟨hx, -⟩ := H.numbering.packets x hx
  obtain ⟨hy, -⟩ := H.numbering.packets y hy
  have hxstart : (x.seq : Int) - x.frag = startOf s.frames x.frame := hx.start
  have hystart : (y.seq : Int) - y.frag = startOf s.frames y.frame := hy.start
  rw [hxstart, hystart]
  constructor
  · intro hframe
    rw [hframe]
  · intro hstart
    exact startOf_inj hx.frame_lt hy.frame_lt (Int.ofNat.inj hstart)

theorem arrived_all (H : Invariant c C s) (hcalls : s.sender.calls = []) (hflight : s.inFlight = [])
    (hi : s.frames[i]? = some chunk) : ∀ f < chunk.fragmentCount, arrived s.delivered i f = true := by
  intro f hf
  have hnone : ∀ call ∈ s.sender.calls, call.frame ≠ i := by
    rw [hcalls]
    exact fun _ h => absurd h not_mem_nil
  have hmem : f ∈ fragsOf s.sent i := by
    rw [H.numbering.all i chunk hi hnone]
    exact mem_range.mpr hf
  obtain ⟨x, hx, rfl⟩ := mem_map.mp hmem
  obtain ⟨hx, hframe⟩ := mem_filter.mp hx
  have htraffic := H.traffic
  rw [hflight, append_nil] at htraffic
  refine decide_eq_true (mem_map.mpr ⟨x, htraffic.mem_iff.mp hx, ?_⟩)
  rw [Sent.place, of_decide_eq_true hframe]

theorem complete (H : Invariant c C s) (hcalls : s.sender.calls = []) (hflight : s.inFlight = []) :
    s.output.Perm (s.frames.map c.original) := by
  obtain ⟨done, hnodup, hout, hdone⟩ := H.receiving.output
  have hmem : ∀ i, i ∈ done ↔ i ∈ List.range s.frames.length := by
    intro i
    rw [hdone, mem_range]
    constructor
    · rintro ⟨chunk, hi, -⟩
      exact (List.getElem?_eq_some_iff.mp hi).1
    · intro hlt
      have hi := getElem?_eq_getElem hlt
      exact ⟨_, hi, H.arrived_all hcalls hflight hi⟩
  have hperm : done.Perm (List.range s.frames.length) :=
    (perm_ext_iff_of_nodup hnodup nodup_range).mpr hmem
  have hframes : (List.range s.frames.length).filterMap (fun i => s.frames[i]?.map c.original) =
      s.frames.map c.original := filterMap_range_getElem? c.original s.frames
  rw [hout, ← hframes]
  exact hperm.filterMap _

theorem whole (hC : C.Lawful) (H : Invariant c C s) : s.Whole c where
  numbered := H.numbered
  accepted x hx := by
    obtain ⟨hplaced, hmessage⟩ := H.numbering.packets x hx
    exact ⟨c.packet C x.call, hmessage ▸ sanitizeCallVideo_message hC hplaced.sound, rfl, rfl, rfl⟩
  output := by
    obtain ⟨done, hnodup, hout, -⟩ := H.receiving.output
    exact ⟨done, hnodup, hout⟩
  fragments hcalls i chunk hi := by
    have hall := H.numbering.all i chunk hi (by
      rw [hcalls]
      exact fun _ h => absurd h not_mem_nil)
    exact List.Perm.of_eq hall
  complete := H.complete

end Invariant

variable {acts : List StreamAction} {s : VideoStream}

/-- In a run in which the numbering of a frame is never broken into, and the receiver has room for
what arrives, the frames arrive whole. -/
theorem whole_of_unbroken (hC : C.Lawful)
    (h : Run (step C c) (fun s a => s.unbroken c a = true) (start c) acts s) : s.Whole c :=
  Invariant.whole hC (h.invariant (fun hok H ha => H.step hC hok ha) Invariant.start)

/-- A cipher that marks what it is given with the vector. -/
def marking : CallCipher where
  encrypt iv plaintext := plaintext ++ (iv ++ List.replicate 16 0).take 16
  decrypt iv ciphertext :=
    let plaintext := ciphertext.take (ciphertext.length - 16)
    if plaintext ++ (iv ++ List.replicate 16 0).take 16 = ciphertext then some plaintext else none

theorem length_mark {iv : Bytes} : ((iv ++ List.replicate 16 0).take 16).length = 16 := by
  rw [length_take, length_append, length_replicate]
  omega

theorem marking_lawful : marking.Lawful where
  decrypt_encrypt iv plaintext := by
    rw [marking]
    dsimp only
    rw [length_append, length_mark, Nat.add_sub_cancel, take_left]
    exact if_pos rfl
  length_encrypt iv plaintext := by
    rw [marking, length_append, length_mark]

def cameraCall : VideoCall where
  callId := "call"
  callId_ok := by decide
  kind := .camera
  role := .caller
  codec := none
  scaled := (640, 360)

theorem whole_of_unbroken_two : ∃ acts s,
    Run (step marking cameraCall) (fun s a => s.unbroken cameraCall a = true) (start cameraCall)
      acts s ∧
    s.output.map Assembled.bytes = [[3], [1, 2]] ∧ s.Whole cameraCall := by
  let acts : List StreamAction := [.encoded ⟨[1, 2], true, 0, some [7]⟩, .encrypted 0,
    .encoded ⟨[3], false, 40, none⟩, .encrypted 0, .deliver 1 50, .deliver 0 60]
  have hok : allowed (step marking cameraCall) (unbroken cameraCall) (start cameraCall) acts =
      true := by
    decide +kernel
  have hrun : (exec (step marking cameraCall) (start cameraCall) acts).map
      (fun s => s.output.map Assembled.bytes) = some [[3], [1, 2]] := by
    decide +kernel
  obtain ⟨s, hs, hend⟩ := map_eq_some_iff.mp hrun
  have hall := Run.of_allowed hok hs
  exact ⟨acts, s, hall, hend, whole_of_unbroken marking_lawful hall⟩

/-- The fragments of two frames whose encryptions overlap are numbered in turn. -/
theorem overlap_breaks : ¬ ∀ C c acts s, CallCipher.Lawful C →
    Run (step C c) (fun s a => s.onlyFrames a = true) (start c) acts s → s.Whole c := by
  obtain ⟨chunk, hcount, hframe⟩ : ∃ chunk : EncodedChunk,
      (splitVideoFrame chunk.bytes).length = 2 ∧ isFrame chunk = true := by
    let chunk : EncodedChunk := ⟨List.replicate (videoMaxFragmentBytes + 1) 0, true, 0, none⟩
    have hbytes : chunk.bytes.length = videoMaxFragmentBytes + 1 := length_replicate
    refine ⟨chunk, ?_, ?_⟩
    · rw [splitVideoFrame_eq (by rw [hbytes]; exact Nat.succ_ne_zero _), length_map,
        length_range, hbytes]
      rfl
    · rw [isFrame, hbytes]
      rfl
  let call (frame i seq : Nat) : EncodeCall := ⟨frame, chunk, splitVideoFrame chunk.bytes, i, seq⟩
  let packet (i seq : Nat) : Sent := ⟨call 0 i seq, cameraCall.message marking (call 0 i seq)⟩
  let direction (seq : Nat) (calls : List EncodeCall) : VideoDirection :=
    { kind := .camera, role := .caller, seq := seq, handed := 2, calls := calls }
  -- both frames have the number of their first fragment before one of them has another
  have hfirst : (direction 2 [call 0 0 0, call 1 0 1]).resumeEncoded true 0 true =
      some ⟨direction 3 [call 0 1 2, call 1 0 1], some (call 0 0 0), some (call 0 1 2)⟩ := by
    change (if 0 + 1 < (splitVideoFrame chunk.bytes).length then _ else _) = _
    rw [hcount]
    rfl
  have hsecond : (direction 3 [call 0 1 2, call 1 0 1]).resumeEncoded true 0 true =
      some ⟨direction 3 [call 1 0 1], some (call 0 1 2), none⟩ := by
    change (if 1 + 1 < (splitVideoFrame chunk.bytes).length then _ else _) = _
    rw [hcount]
    rfl
  let sending (d : VideoDirection) (sent : List Sent) : VideoStream :=
    { sender := d, frames := [chunk, chunk], sent := sent, inFlight := sent }
  have hsends : ∀ {d d' : VideoDirection} {x : EncodeCall} {next : Option EncodeCall}
      {sent : List Sent}, d.resumeEncoded true 0 true = some ⟨d', some x, next⟩ →
      step marking cameraCall (sending d sent) (.encrypted 0) =
        some (sending d' (sent ++ [⟨x, cameraCall.message marking x⟩])) := by
    intro d d' x next sent h
    rw [step, show (sending d sent).sender.resumeEncoded true 0 true = _ from h]
    rfl
  have hrun : Run (step marking cameraCall) (fun s a => s.onlyFrames a = true) (start cameraCall)
      [.encoded chunk, .encoded chunk, .encrypted 0, .encrypted 0]
      (sending (direction 3 [call 1 0 1]) [packet 0 0, packet 1 2]) :=
    .cons hframe rfl (.cons hframe rfl (.cons rfl (hsends hfirst) (.cons rfl (hsends hsecond) .nil)))
  intro H
  have hwhole := H marking cameraCall _ _ marking_lawful hrun
  have hsame : ((0 : Nat) : Int) - (0 : Nat) = ((2 : Nat) : Int) - (1 : Nat) :=
    (hwhole.numbered (packet 0 0) mem_cons_self (packet 1 2)
      (mem_cons_of_mem _ mem_cons_self)).mp rfl
  exact absurd hsame (by decide)

end VideoStream
end Bluetalk.Calls

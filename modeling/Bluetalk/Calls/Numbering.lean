import Bluetalk.Calls.Fragments

/-!
# The numbers of the fragments

When a frame is handed in only after the last fragments of those before it have their numbers, the
fragments of every frame are numbered without a gap, one frame after the other.
-/

open List Option

namespace Bluetalk.Calls

/-- How many fragments a frame has. -/
def EncodedChunk.fragmentCount (chunk : EncodedChunk) : Nat := (splitVideoFrame chunk.bytes).length

/-- How many fragments the frames before the `i`-th have. -/
def startOf (frames : List EncodedChunk) (i : Nat) : Nat :=
  ((frames.take i).map EncodedChunk.fragmentCount).sum

variable {frames : List EncodedChunk} {chunk : EncodedChunk} {i j : Nat} {sent : List Sent}
  {x : Sent}

theorem startOf_append (h : i ≤ frames.length) :
    startOf (frames ++ [chunk]) i = startOf frames i := by
  rw [startOf, take_append_of_le_length h, startOf]

theorem startOf_succ (h : frames[i]? = some chunk) :
    startOf frames (i + 1) = startOf frames i + chunk.fragmentCount := by
  rw [startOf, take_add_one, h, map_append, sum_append, startOf]
  rfl

theorem startOf_mono (h : i ≤ j) : startOf frames i ≤ startOf frames j := by
  induction j with
  | zero =>
    rw [Nat.le_zero.mp h]
  | succ j ih =>
    rcases Nat.le_succ_iff.mp h with h | rfl
    · refine (ih h).trans ?_
      cases hj : frames[j]? with
      | none =>
        have hlength := getElem?_eq_none_iff.mp hj
        rw [startOf, startOf, take_of_length_le hlength,
          take_of_length_le (hlength.trans (Nat.le_succ j))]
      | some chunk =>
        rw [startOf_succ hj]
        exact Nat.le_add_right ..
    · exact Nat.le_refl _

theorem startOf_lt (h : i < j) (hi : i < frames.length) : startOf frames i < startOf frames j := by
  refine Nat.lt_of_lt_of_le ?_ (startOf_mono (Nat.succ_le_of_lt h))
  rw [Nat.succ_eq_add_one, startOf_succ (getElem?_eq_getElem hi)]
  exact Nat.lt_add_of_pos_right length_splitVideoFrame_pos

theorem startOf_inj (hi : i < frames.length) (hj : j < frames.length)
    (h : startOf frames i = startOf frames j) : i = j := by
  rcases Nat.lt_trichotomy i j with hlt | heq | hlt
  · exact absurd h (startOf_lt hlt hi).ne
  · exact heq
  · exact absurd h.symm (startOf_lt hlt hj).ne

/-- A fragment has the number that its frame and its place in it give. -/
structure EncodeCall.Placed (frames : List EncodedChunk) (call : EncodeCall) : Prop where
  sound : call.Sound
  chunk : frames[call.frame]? = some call.chunk
  seq : call.fragmentSeq = startOf frames call.frame + call.i

namespace EncodeCall.Placed

variable {call : EncodeCall}

theorem frame_lt (H : call.Placed frames) : call.frame < frames.length :=
  (List.getElem?_eq_some_iff.mp H.chunk).1

theorem length_parts (H : call.Placed frames) : call.parts.length = call.chunk.fragmentCount :=
  congrArg List.length H.sound.parts

theorem start (H : call.Placed frames) :
    (call.fragmentSeq : Int) - call.i = startOf frames call.frame := by
  have hseq := H.seq
  omega

theorem append (H : call.Placed frames) : call.Placed (frames ++ [chunk]) where
  sound := H.sound
  chunk := (getElem?_append_left H.frame_lt).trans H.chunk
  seq := H.seq.trans (by rw [startOf_append H.frame_lt.le])

theorem seq_lt (H : call.Placed frames) :
    call.fragmentSeq + (call.parts.length - call.i) ≤ startOf frames frames.length := by
  have hlt := H.sound.lt
  have hseq := H.seq
  have hsucc := startOf_succ H.chunk
  have hmono : startOf frames (call.frame + 1) ≤ startOf frames frames.length :=
    startOf_mono H.frame_lt
  rw [← H.length_parts] at hsucc
  omega

end EncodeCall.Placed

/-- The places of the fragments of a frame, in the order in which they were sent. -/
def fragsOf (sent : List Sent) (i : Nat) : List Nat :=
  (sent.filter fun x => x.frame = i).map Sent.frag

def Sent.place (x : Sent) : Nat × Nat := (x.frame, x.frag)

theorem fragsOf_append : fragsOf (sent ++ [x]) i =
    if x.frame = i then fragsOf sent i ++ [x.frag] else fragsOf sent i := by
  rw [fragsOf, filter_append, map_append]
  split
  next h =>
    have hone : [x].filter (fun x => x.frame = i) = [x] :=
      filter_cons_of_pos (decide_eq_true h)
    rw [hone, fragsOf, map_singleton]
  next h =>
  have hnone : [x].filter (fun x => x.frame = i) = [] :=
    filter_cons_of_neg (by rw [decide_eq_false h]; exact Bool.false_ne_true)
  rw [hnone, map_nil, append_nil, fragsOf]

/-- A direction has numbered the fragments of its frames one after the other. -/
structure Numbering (c : VideoCall) (C : CallCipher) (d : VideoDirection)
    (frames : List EncodedChunk) (sent : List Sent) : Prop where
  opened : d.closed = false
  handed : d.handed = frames.length
  calls : ∀ call ∈ d.calls, call.Placed frames
  once : (d.calls.map EncodeCall.frame).Nodup
  /-- only the last frame may have fragments that have no number yet -/
  next : ∀ call ∈ d.calls, call.i + 1 = call.parts.length ∨
    call.frame + 1 = frames.length ∧ d.seq = call.fragmentSeq + 1
  seq : (∀ call ∈ d.calls, call.i + 1 = call.parts.length) → d.seq = startOf frames frames.length
  bound : startOf frames frames.length ≤ 2 ^ 53
  packets : ∀ x ∈ sent, x.call.Placed frames ∧ x.message = c.message C x.call
  places : (sent.map Sent.place).Nodup
  before : ∀ call ∈ d.calls, fragsOf sent call.frame = List.range call.i
  all : ∀ i chunk, frames[i]? = some chunk → (∀ call ∈ d.calls, call.frame ≠ i) →
    fragsOf sent i = List.range chunk.fragmentCount

namespace Numbering

variable {c : VideoCall} {C : CallCipher} {d : VideoDirection} {sent : List Sent}

theorem start : Numbering c C { kind := c.kind, role := c.role } [] [] where
  opened := rfl
  handed := rfl
  calls _ h := absurd h not_mem_nil
  once := nodup_nil
  next _ h := absurd h not_mem_nil
  seq _ := rfl
  bound := Nat.zero_le _
  packets _ h := absurd h not_mem_nil
  places := nodup_nil
  before _ h := absurd h not_mem_nil
  all i chunk h := by cases h

theorem encoded (H : Numbering c C d frames sent) (hchunk : VideoStream.isFrame chunk = true)
    (hlast : ∀ call ∈ d.calls, call.i + 1 = call.parts.length)
    (hbound : d.seq + chunk.fragmentCount ≤ 2 ^ 53) :
    Numbering c C (d.handleEncoded true chunk).1 (frames ++ [chunk]) sent := by
  have hseq : d.seq = startOf frames frames.length := H.seq hlast
  have htotal : startOf (frames ++ [chunk]) (frames ++ [chunk]).length =
      startOf frames frames.length + chunk.fragmentCount := by
    have hget : (frames ++ [chunk])[frames.length]? = some chunk := getElem?_concat_length
    rw [length_append, length_singleton, startOf_succ hget, startOf_append (Nat.le_refl _)]
  have hpos : 0 < chunk.fragmentCount := length_splitVideoFrame_pos
  have hnext : addOne d.seq = d.seq + 1 := addOne_of_lt (by omega)
  have hnew : EncodeCall.Placed (frames ++ [chunk])
      ⟨d.handed, chunk, splitVideoFrame chunk.bytes, 0, d.seq⟩ := by
    refine ⟨⟨hchunk, rfl, hpos, ?_⟩, ?_, ?_⟩
    · change d.seq < 2 ^ 53
      omega
    · rw [H.handed, getElem?_concat_length]
    · rw [H.handed, startOf_append (Nat.le_refl _), hseq, Nat.add_zero]
  have hcalls : ∀ call ∈ d.calls ++ [⟨d.handed, chunk, splitVideoFrame chunk.bytes, 0, d.seq⟩],
      call ∈ d.calls ∨ call = ⟨d.handed, chunk, splitVideoFrame chunk.bytes, 0, d.seq⟩ :=
    fun call hcall => (mem_append.mp hcall).imp_right mem_singleton.mp
  rw [VideoDirection.handleEncoded, H.opened, if_neg (by decide)]
  constructor
  case opened => rfl
  case handed =>
    rw [H.handed, length_append, length_singleton]
  case calls =>
    intro call hcall
    rcases hcalls call hcall with hcall | rfl
    · exact (H.calls call hcall).append
    · exact hnew
  case once =>
    rw [map_append, map_singleton, nodup_append]
    refine ⟨H.once, nodup_singleton _, fun a ha b hb heq => ?_⟩
    obtain ⟨call, hcall, rfl⟩ := mem_map.mp ha
    have hlt := (H.calls call hcall).frame_lt
    rw [heq, mem_singleton.mp hb] at hlt
    exact absurd H.handed hlt.ne
  case next =>
    intro call hcall
    rcases hcalls call hcall with hcall | rfl
    · exact .inl (hlast call hcall)
    · refine .inr ⟨?_, hnext⟩
      rw [H.handed, length_append, length_singleton]
  case seq =>
    intro hall
    have hone : 0 + 1 = chunk.fragmentCount :=
      hall _ (mem_append_right _ (mem_singleton_self _))
    rw [htotal, hnext, hseq, ← hone]
  case bound =>
    rw [htotal, ← hseq]
    exact hbound
  case packets =>
    intro x hx
    exact (H.packets x hx).imp_left EncodeCall.Placed.append
  case places => exact H.places
  case before =>
    intro call hcall
    rcases hcalls call hcall with hcall | rfl
    · exact H.before call hcall
    change (sent.filter fun x => x.frame = d.handed).map Sent.frag = []
    rw [map_eq_nil_iff, filter_eq_nil_iff]
    intro x hx hframe
    have hlt : x.frame < frames.length := (H.packets x hx).1.frame_lt
    rw [of_decide_eq_true hframe, H.handed] at hlt
    exact Nat.lt_irrefl _ hlt
  case all =>
    intro i chunk' hi hnone
    have hother := hnone _ (mem_append_right _ (mem_singleton_self _))
    have hlt : i < frames.length := by
      have hlength := (List.getElem?_eq_some_iff.mp hi).1
      have hne : d.handed ≠ i := hother
      rw [length_append, length_singleton] at hlength
      rw [H.handed] at hne
      omega
    rw [getElem?_append_left hlt] at hi
    exact H.all i chunk' hi fun call hcall => hnone call (mem_append_left _ hcall)

/-- When an encryption has come out, the fragment is sent, and the next one of its frame gets the
next number. -/
theorem resumed {r : VideoDirection.Resumed} (H : Numbering c C d frames sent)
    (h : d.resumeEncoded true j true = some r) : ∃ call, r.sent = some call ∧ call ∈ d.calls ∧
      Numbering c C r.direction frames (sent ++ [⟨call, c.message C call⟩]) := by
  rw [VideoDirection.resumeEncoded] at h
  cases hj : d.calls[j]? with
  | none =>
    rw [hj] at h
    cases h
  | some call =>
    rw [hj] at h
    dsimp only at h
    rw [if_neg (by decide), H.opened, if_neg (by decide)] at h
    have hmem := mem_of_getElem? hj
    have hplaced := H.calls call hmem
    have hpackets : ∀ x ∈ sent ++ [⟨call, c.message C call⟩], x.call.Placed frames ∧
        x.message = c.message C x.call := by
      intro x hx
      rcases mem_append.mp hx with hx | hx
      · exact H.packets x hx
      · rw [mem_singleton.mp hx]
        exact ⟨hplaced, rfl⟩
    have hplaces : ((sent ++ [(⟨call, c.message C call⟩ : Sent)]).map Sent.place).Nodup := by
      rw [map_append, map_singleton, nodup_append]
      refine ⟨H.places, nodup_singleton _, ?_⟩
      intro a ha b hb heq
      obtain ⟨x, hx, rfl⟩ := mem_map.mp ha
      rw [mem_singleton.mp hb] at heq
      obtain ⟨hframe, hfrag⟩ := Prod.mk.inj heq
      have hfound : x.frag ∈ fragsOf sent x.frame :=
        mem_map_of_mem (mem_filter.mpr ⟨hx, decide_eq_true rfl⟩)
      have hframe : x.frame = call.frame := hframe
      rw [hframe, H.before call hmem, mem_range] at hfound
      exact hfound.ne hfrag
    have hown : fragsOf (sent ++ [⟨call, c.message C call⟩]) call.frame =
        List.range (call.i + 1) := by
      rw [fragsOf_append, H.before call hmem, range_succ]
      exact if_pos rfl
    have hothers : ∀ i, call.frame ≠ i →
        fragsOf (sent ++ [⟨call, c.message C call⟩]) i = fragsOf sent i := by
      intro i hi
      rw [fragsOf_append]
      exact if_neg hi
    split at h
    next hmore =>
      obtain rfl := some.inj h
      refine ⟨call, rfl, hmem, ?_⟩
      obtain ⟨hframe, hseq⟩ : call.frame + 1 = frames.length ∧ d.seq = call.fragmentSeq + 1 :=
        (H.next call hmem).resolve_left hmore.ne
      have hleft := hplaced.seq_lt
      have hbound := H.bound
      have haddOne : addOne d.seq = d.seq + 1 := addOne_of_lt (by omega)
      have hnext : EncodeCall.Placed frames
          { call with i := call.i + 1, fragmentSeq := d.seq } := by
        refine ⟨⟨hplaced.sound.isFrame, hplaced.sound.parts, hmore, ?_⟩, hplaced.chunk, ?_⟩
        · change d.seq < 2 ^ 53
          omega
        · rw [hseq, hplaced.seq, Nat.add_assoc]
      have hset : ∀ other ∈ d.calls.set j { call with i := call.i + 1, fragmentSeq := d.seq },
          other = { call with i := call.i + 1, fragmentSeq := d.seq } ∨
            other ∈ d.calls ∧ other.frame ≠ call.frame :=
        fun other => (mem_set_of_nodup H.once hj).mp
      have hin : { call with i := call.i + 1, fragmentSeq := d.seq } ∈
          d.calls.set j { call with i := call.i + 1, fragmentSeq := d.seq } :=
        (mem_set_of_nodup H.once hj).mpr (.inl rfl)
      -- the other calls are about frames before the last
      have hdone : ∀ other ∈ d.calls, other.frame ≠ call.frame →
          other.i + 1 = other.parts.length := by
        intro other hin hne
        refine (H.next other hin).resolve_right fun hlast => hne ?_
        exact Nat.succ.inj (hlast.1.trans hframe.symm)
      constructor
      case opened => rfl
      case handed => exact H.handed
      case calls =>
        intro other hin
        rcases hset other hin with rfl | ⟨hin, -⟩
        · exact hnext
        · exact H.calls other hin
      case once =>
        have hsame : (d.calls.set j { call with i := call.i + 1, fragmentSeq := d.seq }).map
            EncodeCall.frame = d.calls.map EncodeCall.frame := map_set_of_eq hj rfl
        exact hsame ▸ H.once
      case next =>
        intro other hin
        rcases hset other hin with rfl | ⟨hin, hne⟩
        · exact .inr ⟨hframe, haddOne⟩
        · exact .inl (hdone other hin hne)
      case seq =>
        intro hall
        have hself : call.i + 1 + 1 = call.parts.length :=
          hall _ hin
        have hsucc := startOf_succ hplaced.chunk
        have hstart := hplaced.seq
        rw [hframe, ← hplaced.length_parts] at hsucc
        change addOne d.seq = _
        omega
      case bound => exact hbound
      case packets => exact hpackets
      case places => exact hplaces
      case before =>
        intro other hin
        rcases hset other hin with rfl | ⟨hin, hne⟩
        · exact hown
        · rw [hothers _ hne.symm]
          exact H.before other hin
      case all =>
        intro i chunk hi hnone
        have hne : call.frame ≠ i :=
          hnone { call with i := call.i + 1, fragmentSeq := d.seq } hin
        rw [hothers i hne]
        refine H.all i chunk hi fun other hin heq => ?_
        exact hnone other ((mem_set_of_nodup H.once hj).mpr (.inr ⟨hin, heq ▸ hne.symm⟩)) heq
    next hlast =>
    obtain rfl := some.inj h
    refine ⟨call, rfl, hmem, ?_⟩
    have hlast : call.i + 1 = call.parts.length := by
      have hlt := hplaced.sound.lt
      omega
    have herase : ∀ other, other ∈ d.calls.eraseIdx j ↔
        other ∈ d.calls ∧ other.frame ≠ call.frame :=
      fun other => mem_eraseIdx_of_nodup H.once hj
    constructor
    case opened => rfl
    case handed => exact H.handed
    case calls => exact fun other hin => H.calls other ((herase other).mp hin).1
    case once => exact ((eraseIdx_sublist _ _).map _).nodup H.once
    case next => exact fun other hin => H.next other ((herase other).mp hin).1
    case seq =>
      intro hall
      refine H.seq fun other hin => ?_
      by_cases heq : other.frame = call.frame
      · obtain rfl := inj_on_of_nodup_map H.once hin hmem heq
        exact hlast
      · exact hall other ((herase other).mpr ⟨hin, heq⟩)
    case bound => exact H.bound
    case packets => exact hpackets
    case places => exact hplaces
    case before =>
      intro other hin
      obtain ⟨hin, hne⟩ := (herase other).mp hin
      rw [hothers _ hne.symm]
      exact H.before other hin
    case all =>
      intro i chunk hi hnone
      by_cases heq : call.frame = i
      · subst heq
        obtain rfl := some.inj (hplaced.chunk.symm.trans hi)
        rw [hown, hlast, hplaced.length_parts]
      · rw [hothers i heq]
        refine H.all i chunk hi fun other hin hframe => ?_
        exact hnone other ((herase other).mpr ⟨hin, hframe ▸ Ne.symm heq⟩) hframe

end Numbering
end Bluetalk.Calls

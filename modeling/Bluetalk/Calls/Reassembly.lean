import Bluetalk.Calls.Fragments

/-!
# Reassembly

What the reassembler makes of the fragments of a frame, as long as it drops nothing.
-/

open List Option

namespace Bluetalk.Calls

variable {c : VideoCall} {call : EncodeCall} {chunk : EncodedChunk} {r : Reassembler}
  {e : PendingFrame} {now : Int} {start f : Nat} {has has' : Nat → Bool}

theorem EncodeCall.Sound.boundedDesc_fragment (H : call.Sound) :
    boundedDesc (c.fragment call).desc = some (c.fragment call).desc := by
  rw [VideoCall.fragment]
  split
  · cases hdescription : call.chunk.description with
    | none => rfl
    | some desc =>
      obtain ⟨hpos, hle⟩ := H.bounds.2.2 desc hdescription
      rw [boundedDesc, if_neg]
      rw [Bool.or_eq_true, decide_eq_true_eq, decide_eq_true_eq]
      omega
  · rfl

/-- A frame of which some fragments have come. -/
structure PendingFrame.Stands (c : VideoCall) (chunk : EncodedChunk) (start : Nat)
    (has : Nat → Bool) (e : PendingFrame) : Prop where
  id : e.id = (c.kind, (start : Int))
  frags : e.frags = (splitVideoFrame chunk.bytes).length
  parts : e.parts = (List.range e.frags).map fun f =>
    if has f then (splitVideoFrame chunk.bytes)[f]? else none
  got : e.got = e.parts.countP Option.isSome
  key : e.key = chunk.key
  ts : e.ts = some chunk.timestamp
  codec : e.codec = some c.codecName
  w : e.w = some c.width
  h : e.h = some c.height
  desc : e.desc = if has 0 then chunk.description else none

namespace PendingFrame.Stands

theorem length_parts (H : Stands c chunk start has e) : e.parts.length = e.frags := by
  rw [H.parts, length_map, length_range]

theorem getElem?_parts (H : Stands c chunk start has e) (hf : f < e.frags) :
    e.parts[f]? = some (if has f then (splitVideoFrame chunk.bytes)[f]? else none) := by
  rw [H.parts, getElem?_map, getElem?_range hf]
  rfl

theorem isSome_parts (H : Stands c chunk start has e) (hf : f < e.frags) :
    (e.parts[f]?).join.isSome = has f := by
  rw [H.getElem?_parts hf, join_some]
  split
  next h =>
    rw [h, getElem?_eq_getElem (H.frags ▸ hf)]
    rfl
  next h =>
  rw [Bool.not_eq_true] at h
  rw [h]
  rfl

theorem all_isSome (H : Stands c chunk start has e) :
    e.parts.all Option.isSome = true ↔ ∀ f < e.frags, has f = true := by
  rw [List.all_eq_true]
  constructor
  · intro h f hf
    have hmem := mem_of_getElem? (H.getElem?_parts hf)
    have hsome := h _ hmem
    split at hsome
    next h => exact h
    · cases hsome
  intro h part hpart
  rw [H.parts] at hpart
  obtain ⟨f, hf, rfl⟩ := mem_map.mp hpart
  have hf := mem_range.mp hf
  rw [if_pos (h f hf), getElem?_eq_getElem (H.frags ▸ hf)]
  rfl

theorem got_lt (H : Stands c chunk start has e) :
    e.got < e.frags ↔ ∃ f < e.frags, has f = false := by
  have hle : e.got ≤ e.frags := by
    rw [H.got, ← H.length_parts]
    exact countP_le_length
  have heq : e.got = e.frags ↔ ∀ f < e.frags, has f = true := by
    rw [H.got, ← H.all_isSome, List.all_eq_true, ← H.length_parts, List.countP_eq_length]
  rw [Nat.lt_iff_le_and_ne, ne_eq, heq]
  simp only [hle, true_and, not_forall, Bool.not_eq_true, exists_prop]

theorem complete (H : Stands c chunk start has e) (hpos : 0 < e.frags)
    (hall : ∀ f < e.frags, has f = true) : Reassembler.complete e = some (c.original chunk) := by
  have hbytes : (e.parts.map fun part => part.getD []).flatten = chunk.bytes := by
    have hparts : e.parts.map (fun part => part.getD []) = splitVideoFrame chunk.bytes := by
      refine ext_getElem? fun f => ?_
      rw [getElem?_map]
      by_cases hf : f < e.frags
      · rw [H.getElem?_parts hf, if_pos (hall f hf), getElem?_eq_getElem (H.frags ▸ hf)]
        rfl
      · rw [getElem?_eq_none (by rw [H.length_parts]; omega),
          getElem?_eq_none (by rw [← H.frags]; omega)]
        rfl
    rw [hparts, flatten_splitVideoFrame]
  have hdesc : e.desc = chunk.description := by rw [H.desc, if_pos (hall 0 hpos)]
  have hstream : e.stream = c.kind := congrArg Prod.fst H.id
  rw [Reassembler.complete, if_pos (H.all_isSome.mpr hall), hbytes, H.key, H.ts, H.codec, H.w, H.h,
    hdesc, hstream, VideoCall.original]

theorem addPart (H : Stands c chunk start has e) (hcall : call.Sound) (hchunk : call.chunk = chunk)
    (hnew : has call.i = false) (hhas : ∀ f, has' f = (has f || decide (f = call.i))) :
    Stands c chunk start has' (Reassembler.addPart e (c.fragment call)) := by
  subst hchunk
  have hlt : call.i < e.frags := by
    rw [H.frags, ← hcall.parts]
    exact hcall.lt
  have hnone : (e.parts[call.i]?).join.isNone = true := by
    rw [← not_isSome, H.isSome_parts hlt, hnew]
    rfl
  have hold : e.parts[call.i]? = some none := by
    rw [H.getElem?_parts hlt, if_neg (by rw [hnew]; decide)]
  have hparts : e.parts.set call.i (some call.part) = (List.range e.frags).map fun f =>
      if has' f then (splitVideoFrame call.chunk.bytes)[f]? else none := by
    refine ext_getElem? fun f => ?_
    rw [getElem?_set, H.length_parts, getElem?_map]
    by_cases hf : f < e.frags
    · rw [getElem?_range hf, map_some, hhas]
      by_cases heq : call.i = f
      · subst heq
        rw [if_pos rfl, if_pos hlt, decide_eq_true rfl, Bool.or_true, if_pos rfl, hcall.part_eq]
      · rw [if_neg heq, H.getElem?_parts hf, decide_eq_false (Ne.symm heq), Bool.or_false]
    rw [getElem?_eq_none (l := List.range e.frags) (by rw [length_range]; omega),
      map_none]
    by_cases heq : call.i = f
    · omega
    · rw [if_neg heq, getElem?_eq_none (by rw [H.length_parts]; omega)]
  constructor
  case id => exact H.id
  case frags => exact H.frags
  case parts => exact hparts
  case got =>
    change (if (e.parts[call.i]?).join.isNone = true then e.got + 1 else e.got) =
      (e.parts.set call.i (some call.part)).countP Option.isSome
    have hlength : call.i < e.parts.length := H.length_parts ▸ hlt
    have hhole : e.parts[call.i] = none :=
      some.inj ((getElem?_eq_getElem hlength).symm.trans hold)
    rw [if_pos hnone, H.got, countP_set hlength, hhole]
    rfl
  case key =>
    change (e.key || call.chunk.key) = call.chunk.key
    rw [H.key, Bool.or_self]
  case ts => exact H.ts
  case codec => exact H.codec
  case w => exact H.w
  case h => exact H.h
  case desc =>
    rw [Reassembler.addPart, hcall.boundedDesc_fragment, join_some, VideoCall.fragment,
      H.desc, hhas]
    by_cases hzero : call.i = 0
    · rw [hzero] at hnew
      rw [if_pos hzero, hnew, hzero]
      cases call.chunk.description <;> rfl
    · rw [if_neg hzero, decide_eq_false (Ne.symm hzero), Bool.or_false]

end PendingFrame.Stands
namespace Reassembler

theorem dropWhile_of_not {cond : Reassembler → Bool} {stream : Option StreamKind} {fuel : Nat}
    (h : cond r = false) : dropWhile cond stream fuel r = r := by
  cases fuel with
  | zero => rfl
  | succ fuel => rw [dropWhile, if_neg (by rw [h]; decide)]

theorem gc_of_fresh (h : ∀ e ∈ r.pending, now - e.createdAt ≤ videoReassemblyTtlMs) :
    r.gc now = r := by
  have hfilter : r.pending.filter (fun e => !(now - e.createdAt > videoReassemblyTtlMs)) =
      r.pending := by
    refine filter_eq_self.mpr fun e he => ?_
    rw [decide_eq_false (Int.not_lt.mpr (h e he)), Bool.not_false]
  rw [gc, hfilter]

theorem ensureBudget_of_room {extraBytes : Nat} {stream : StreamKind}
    (hopen : r.streamCount stream < videoMaxOpenFrames)
    (hbytes : r.totalBytes + extraBytes ≤ videoMaxReassemblyBytes) :
    r.ensureBudget extraBytes stream = (r, true) := by
  have hkept : dropWhile (fun r => r.streamCount stream ≥ videoMaxOpenFrames) (some stream)
      r.pending.length r = r := dropWhile_of_not (decide_eq_false (Nat.not_le.mpr hopen))
  rw [ensureBudget, hkept, dropWhile_of_not (decide_eq_false (Nat.not_lt.mpr hbytes)),
    decide_eq_true hbytes]

theorem totalBytes_append {es : List PendingFrame} :
    totalBytes ⟨es ++ [e]⟩ = totalBytes ⟨es⟩ + e.byteCount := by
  rw [totalBytes, totalBytes, map_append, sum_append, map_singleton, sum_singleton]

theorem set_of_get_eq_none (h : r.get e.id = none) : r.set e = ⟨r.pending ++ [e]⟩ := by
  have hnot : e.id ∉ r.pending.map PendingFrame.id := by
    intro hmem
    obtain ⟨e', he', hid⟩ := mem_map.mp hmem
    exact absurd (decide_eq_true hid) (find?_eq_none.mp h e' he')
  rw [set, put_of_not_mem hnot]

theorem validMeta_fragment (H : call.Sound) : validMeta (c.fragment call) = true := by
  have hwidth := c.width_bounds
  have hheight := c.height_bounds
  have hcodec : ¬ (some c.codecName).any (fun codec => !isAllowedVideoCodec codec) = true := by
    rw [any_some, c.isAllowedVideoCodec_codecName]
    decide
  have hsize : ¬ (((some c.width).isSome || (some c.height).isSome) &&
      !!(c.width < 1 || c.height < 1 || c.width > videoMaxWidth || c.height > videoMaxHeight)) =
        true := by
    rw [decide_eq_false (Int.not_lt.mpr hwidth.1), decide_eq_false (Int.not_lt.mpr hheight.1),
      decide_eq_false (Int.not_lt.mpr hwidth.2), decide_eq_false (Int.not_lt.mpr hheight.2)]
    exact Bool.false_ne_true
  have hdesc : (boundedDesc (c.fragment call).desc).isSome = true := by
    rw [H.boundedDesc_fragment]
    rfl
  exact (if_neg hcodec).trans ((if_neg hsize).trans hdesc)

theorem push_fragment (H : call.Sound)
    (hfresh : ∀ e ∈ r.pending, now - e.createdAt ≤ videoReassemblyTtlMs) :
    r.push (c.fragment call) now =
      if call.parts.length = 1 then (r, some (c.original call.chunk))
      else
        match r.entryFor (c.fragment call) now with
        | (r, none) => (r, none)
        | (r, some e) =>
          let previous := ((e.parts[call.i]?).join.getD []).length
          if call.part.length > previous &&
              r.totalBytes + (call.part.length - previous) > videoMaxReassemblyBytes then (r, none)
          else
            let e := addPart e (c.fragment call)
            if e.got < e.frags then (r.set e, none) else (r.delete e.id, complete e) := by
  have hpart := H.length_part
  have hlt := H.lt
  have hcount : toFragCount call.parts.length = call.parts.length := by
    have hle := H.length_parts_le
    rw [toFragCount, if_neg]
    rw [Bool.or_eq_true, decide_eq_true_eq, decide_eq_true_eq]
    omega
  have hindex : (toFragIndex call.i call.parts.length).isNone = false := by
    rw [toFragIndex, if_neg (Nat.not_le.mpr hlt)]
    rfl
  have hdata : ¬ (call.part.length = 0 || call.part.length > videoMaxFragmentBytes) := by
    rw [Bool.or_eq_true, decide_eq_true_eq, decide_eq_true_eq]
    omega
  have hfragment : (c.fragment call).frags = call.parts.length ∧ (c.fragment call).frag = call.i ∧
      (c.fragment call).data = call.part := ⟨rfl, rfl, rfl⟩
  obtain ⟨hfrags, hfrag, hbytes⟩ := hfragment
  rw [push, gc_of_fresh hfresh]
  rw [hfrags, hfrag, hbytes, hcount, if_neg (by omega), hindex, validMeta_fragment H,
    if_neg Bool.false_ne_true, if_neg (by decide), if_neg hdata]
  by_cases hone : call.parts.length = 1
  · have hzero : call.i = 0 := by omega
    have hwhole : call.part = call.chunk.bytes := by
      have hget := H.part_eq
      have hflat : (splitVideoFrame call.chunk.bytes).flatten = call.chunk.bytes :=
        flatten_splitVideoFrame
      rw [← H.parts] at hget hflat
      obtain ⟨part, hparts⟩ := length_eq_one_iff.mp hone
      rw [hparts, flatten_singleton] at hflat
      rw [hparts, hzero] at hget
      exact (some.inj hget).symm.trans hflat
    rw [if_pos hone, if_pos hone, hwhole, VideoCall.fragment, VideoCall.original, if_pos hzero]
  · exact (if_neg hone).trans (if_neg hone).symm

theorem push_begin (H : call.Sound) (hmany : call.parts.length ≠ 1)
    (hfresh : ∀ e ∈ r.pending, now - e.createdAt ≤ videoReassemblyTtlMs)
    (hbytes : r.totalBytes + call.part.length ≤ videoMaxReassemblyBytes)
    (hopen : r.streamCount c.kind < videoMaxOpenFrames)
    (hget : r.get (c.kind, (call.fragmentSeq : Int) - call.i) = none)
    (hstart : (call.fragmentSeq : Int) - call.i = start)
    (hhas : ∀ f, has f = decide (f = call.i)) :
    ∃ e, PendingFrame.Stands c call.chunk start has e ∧
      r.push (c.fragment call) now = (r.set e, none) := by
  -- the entry that is begun, without the description, which it would get with this fragment anyway
  let blank : PendingFrame := {
    stream := c.kind, startSeq := (call.fragmentSeq : Int) - call.i
    parts := List.replicate call.parts.length none, frags := call.parts.length, createdAt := now
    key := call.chunk.key, ts := some call.chunk.timestamp, codec := some c.codecName
    w := some c.width, h := some c.height, desc := none }
  let begun : PendingFrame := { blank with desc := (c.fragment call).desc }
  have hblank : PendingFrame.Stands c call.chunk start (fun _ => false) blank := by
    constructor
    case id => exact congrArg (Prod.mk c.kind) hstart
    case frags => exact congrArg List.length H.parts
    case parts =>
      change List.replicate call.parts.length none = _
      rw [← length_range (n := call.parts.length), ← map_const']
      rfl
    case got =>
      rw [countP_replicate]
      rfl
    all_goals rfl
  have hadd : addPart begun (c.fragment call) = addPart blank (c.fragment call) := by
    rw [addPart, addPart, H.boundedDesc_fragment, join_some]
    cases hdesc : (c.fragment call).desc with
    | none =>
      have hbegun : begun.desc = none := hdesc
      rw [hbegun]
    | some desc => rfl
  have hentry : r.entryFor (c.fragment call) now = (r.set begun, some begun) := by
    have hroom : r.ensureBudget (c.fragment call).data.length (c.fragment call).stream =
        (r, true) := ensureBudget_of_room hopen hbytes
    have hgone : (r.get ((c.fragment call).stream,
        ((c.fragment call).seq : Int) - (c.fragment call).frag)).filter
          (fun e => e.frags = (c.fragment call).frags) = none := by
      have hnone : r.get ((c.fragment call).stream,
          ((c.fragment call).seq : Int) - (c.fragment call).frag) = none := hget
      rw [hnone, filter_none]
    rw [entryFor]
    rw [hgone, hroom, H.boundedDesc_fragment]
    rfl
  have hadded := hblank.addPart H rfl rfl fun f => (hhas f).trans (Bool.false_or _).symm
  have hmore : (addPart begun (c.fragment call)).got < (addPart begun (c.fragment call)).frags := by
    have hlt := H.lt
    have hfrags : (addPart blank (c.fragment call)).frags = call.parts.length := rfl
    rw [hadd, hadded.got_lt, hfrags]
    by_cases hzero : call.i = 0
    · exact ⟨1, by omega, (hhas 1).trans (decide_eq_false (by omega))⟩
    · exact ⟨0, by omega, (hhas 0).trans (decide_eq_false (by omega))⟩
  have hprevious : (begun.parts[call.i]?).join.getD [] = [] := by
    rw [getElem?_replicate_of_lt H.lt]
    rfl
  have hset : r.set begun = ⟨r.pending ++ [begun]⟩ := set_of_get_eq_none hget
  have htotal : (r.set begun).totalBytes = r.totalBytes := by
    have hempty : begun.byteCount = 0 := by
      change ((List.replicate call.parts.length none).map fun part =>
        (Option.getD part ([] : Bytes)).length).sum = 0
      rw [map_replicate, sum_replicate_nat]
      rfl
    rw [hset, totalBytes_append, hempty, Nat.add_zero]
  have hwithin : ¬ (call.part.length > 0 &&
      (r.set begun).totalBytes + (call.part.length - 0) > videoMaxReassemblyBytes) = true := by
    rw [htotal, Nat.sub_zero, decide_eq_false (Nat.not_lt.mpr hbytes), Bool.and_false]
    exact Bool.false_ne_true
  refine ⟨_, hadded, ?_⟩
  rw [push_fragment H hfresh, if_neg hmany, hentry]
  dsimp only
  have htwice : (r.set begun).set (addPart blank (c.fragment call)) =
      r.set (addPart blank (c.fragment call)) := congrArg Reassembler.mk (put_put rfl)
  rw [hprevious, length_nil, if_neg hwithin, if_pos hmore, hadd, htwice]

theorem push_more (H : call.Sound) (hmany : call.parts.length ≠ 1)
    (hfresh : ∀ e ∈ r.pending, now - e.createdAt ≤ videoReassemblyTtlMs)
    (hbytes : r.totalBytes + call.part.length ≤ videoMaxReassemblyBytes)
    (hget : r.get (c.kind, (call.fragmentSeq : Int) - call.i) = some e)
    (he : PendingFrame.Stands c call.chunk start has e) (hnew : has call.i = false)
    (hhas : ∀ f, has' f = (has f || decide (f = call.i))) :
    (∃ e', PendingFrame.Stands c call.chunk start has' e' ∧
      (∃ f < call.parts.length, has' f = false) ∧ r.push (c.fragment call) now = (r.set e', none)) ∨
    (∀ f < call.parts.length, has' f = true) ∧
      r.push (c.fragment call) now = (r.delete e.id, some (c.original call.chunk)) := by
  have hfrags : e.frags = call.parts.length := he.frags.trans (congrArg List.length H.parts.symm)
  have hentry : r.entryFor (c.fragment call) now = (r, some e) := by
    have hfound : (r.get ((c.fragment call).stream,
        ((c.fragment call).seq : Int) - (c.fragment call).frag)).filter
          (fun e => e.frags = (c.fragment call).frags) = some e := by
      have hsome : r.get ((c.fragment call).stream,
          ((c.fragment call).seq : Int) - (c.fragment call).frag) = some e := hget
      rw [hsome, filter_some]
      exact if_pos (decide_eq_true hfrags)
    rw [entryFor]
    rw [hfound]
  have hprevious : (e.parts[call.i]?).join.getD [] = [] := by
    have hnone := he.isSome_parts (f := call.i) (hfrags ▸ H.lt)
    rw [hnew, isSome_eq_false_iff, isNone_iff_eq_none] at hnone
    rw [hnone, getD_none]
  have hwithin : ¬ (call.part.length > 0 &&
      r.totalBytes + (call.part.length - 0) > videoMaxReassemblyBytes) = true := by
    rw [Nat.sub_zero, decide_eq_false (Nat.not_lt.mpr hbytes), Bool.and_false]
    exact Bool.false_ne_true
  have hadded := he.addPart H rfl hnew hhas
  have hsame : (addPart e (c.fragment call)).frags = call.parts.length := hfrags
  have hgot := hadded.got_lt
  rw [hsame] at hgot
  rw [push_fragment H hfresh, if_neg hmany, hentry]
  dsimp only
  rw [hprevious, length_nil, if_neg hwithin, hsame]
  by_cases hmore : (addPart e (c.fragment call)).got < call.parts.length
  · rw [if_pos hmore]
    exact .inl ⟨_, hadded, hgot.mp hmore, rfl⟩
  have hall : ∀ f < call.parts.length, has' f = true := by
    intro f hf
    by_contra hf'
    exact hmore (hgot.mpr ⟨f, hf, Bool.not_eq_true _ ▸ hf'⟩)
  have hpos : 0 < (addPart e (c.fragment call)).frags := by
    rw [hsame]
    exact Nat.zero_lt_of_lt H.lt
  rw [if_neg hmore, hadded.complete hpos (hsame ▸ hall)]
  exact .inr ⟨hall, rfl⟩

end Reassembler

end Bluetalk.Calls

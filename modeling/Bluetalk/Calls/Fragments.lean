import Bluetalk.Calls.VideoStream

/-!
# Fragments that arrive

A frame is what its fragments make up, a packet passes the receiver's checks, and the receiver gets
out of it the fragment that went in.
-/

open List Option

namespace Bluetalk.Calls

/-! ## Cutting a frame -/

theorem flatten_pieces (bytes : Bytes) (size n : Nat) :
    ((List.range n).map fun i => (bytes.drop (i * size)).take size).flatten =
      bytes.take (n * size) := by
  induction n with
  | zero => rw [Nat.zero_mul, take_zero, range_zero, map_nil, flatten_nil]
  | succ n ih =>
    rw [range_succ, map_append, flatten_append, ih, map_singleton,
      flatten_singleton, Nat.succ_mul, take_add]

variable {bytes part : Bytes} {i : Nat}

theorem splitVideoFrame_eq (h : bytes.length ≠ 0) : splitVideoFrame bytes =
    (List.range ((bytes.length + videoMaxFragmentBytes - 1) / videoMaxFragmentBytes)).map fun i =>
      (bytes.drop (i * videoMaxFragmentBytes)).take videoMaxFragmentBytes := by
  exact if_neg h

theorem flatten_splitVideoFrame : (splitVideoFrame bytes).flatten = bytes := by
  by_cases h : bytes.length = 0
  · rw [length_eq_zero_iff.mp h]
    rfl
  rw [splitVideoFrame_eq h, flatten_pieces]
  refine take_of_length_le ?_
  rw [videoMaxFragmentBytes]
  omega

theorem length_splitVideoFrame_pos : 0 < (splitVideoFrame bytes).length := by
  by_cases h : bytes.length = 0
  · rw [length_eq_zero_iff.mp h]
    exact Nat.one_pos
  · rw [splitVideoFrame_eq h, length_map, length_range, videoMaxFragmentBytes]
    omega

theorem length_splitVideoFrame_le (h : bytes.length ≤ videoMaxFrags * videoMaxFragmentBytes) :
    (splitVideoFrame bytes).length ≤ videoMaxFrags := by
  by_cases hempty : bytes.length = 0
  · rw [length_eq_zero_iff.mp hempty]
    decide
  have hsize : videoMaxFragmentBytes = 24576 := rfl
  have hfrags : videoMaxFrags = 64 := rfl
  rw [splitVideoFrame_eq hempty, length_map, length_range]
  rw [hsize, hfrags] at h
  rw [hsize, hfrags]
  omega

theorem length_fragment (h : 0 < bytes.length) (hpart : (splitVideoFrame bytes)[i]? = some part) :
    0 < part.length ∧ part.length ≤ videoMaxFragmentBytes := by
  rw [splitVideoFrame_eq h.ne'] at hpart
  obtain ⟨hi, rfl⟩ := List.getElem?_eq_some_iff.mp hpart
  rw [List.length_map, List.length_range] at hi
  have hsize : videoMaxFragmentBytes = 24576 := rfl
  rw [getElem_map, getElem_range, length_take, length_drop]
  rw [hsize] at hi ⊢
  omega

/-! ## The checks of the receiver -/

theorem utf16Length_eq {s : String} (h : ∀ c ∈ s.toList, c.val < 0x10000) :
    utf16Length s = s.toList.length := by
  rw [utf16Length]
  generalize s.toList = l at h
  induction l with
  | nil => rfl
  | cons c l ih =>
    rw [forall_mem_cons] at h
    rw [map_cons, sum_cons, ih h.2, if_neg (UInt32.not_le.mpr h.1), length_cons, Nat.add_comm]

theorem utf16Length_bytesToBase64 :
    utf16Length (bytesToBase64 bytes) = (bytes.length + 2) / 3 * 4 := by
  rw [bytesToBase64, Base64.encode, utf16Length_eq, String.toList_ofList, Base64.length_encodeChars]
  intro c hc
  rw [String.toList_ofList] at hc
  have hall : ∀ n : Fin 64, (Base64.digit n).val < 0x10000 := by decide
  rcases Base64.encodeChars_cases hc with rfl | ⟨n, hn, rfl⟩
  · decide
  · exact hall ⟨n, hn⟩

theorem evenDim_bounds {rounded max : Int} (h : 2 ≤ max) :
    1 ≤ evenDim rounded max ∧ evenDim rounded max ≤ max := by
  rw [evenDim]
  omega

namespace VideoCall

variable {c : VideoCall}

theorem width_bounds : 1 ≤ c.width ∧ c.width ≤ videoMaxWidth := by
  rw [width]
  split
  · exact (evenDim_bounds (by decide)).imp_right fun h => h.trans (by decide)
  · exact (evenDim_bounds (by decide)).imp_right fun h => h.trans (by decide)

theorem height_bounds : 1 ≤ c.height ∧ c.height ≤ videoMaxHeight := by
  rw [height]
  split
  · exact (evenDim_bounds (by decide)).imp_right fun h => h.trans (by decide)
  · exact (evenDim_bounds (by decide)).imp_right fun h => h.trans (by decide)

theorem isAllowedVideoCodec_codecName : isAllowedVideoCodec c.codecName = true := by
  rw [codecName]
  cases c.codec with
  | none => decide +kernel
  | some codec => cases codec <;> decide +kernel

theorem fieldText_codecName : fieldText (some (.str c.codecName)) = c.codecName := by
  have hne : c.codecName ≠ "" := by
    rw [codecName]
    cases c.codec with
    | none => decide
    | some codec => cases codec <;> decide
  rw [fieldText, getD_some, Json.textOrEmpty, Json.truthy, decide_eq_true hne, if_pos rfl,
    Json.toText]

theorem utf16Length_codecName : utf16Length c.codecName ≤ callMaxCodecLen := by
  rw [codecName]
  cases c.codec with
  | none => decide
  | some codec => cases codec <;> decide

end VideoCall

/-- What is under the key of a call comes out as it went in. -/
structure CallCipher.Lawful (C : CallCipher) : Prop where
  decrypt_encrypt : ∀ iv plaintext, C.decrypt iv (C.encrypt iv plaintext) = some plaintext
  /-- a tag of sixteen bytes is added -/
  length_encrypt : ∀ iv plaintext, (C.encrypt iv plaintext).length = plaintext.length + 16

variable {C : CallCipher} {c : VideoCall} {call : EncodeCall}

/-- A call of `handleEncoded` that encrypts a fragment of a frame. -/
structure EncodeCall.Sound (call : EncodeCall) : Prop where
  isFrame : VideoStream.isFrame call.chunk = true
  parts : call.parts = splitVideoFrame call.chunk.bytes
  lt : call.i < call.parts.length
  seq : call.fragmentSeq < 2 ^ 53

namespace EncodeCall.Sound

theorem bounds (H : call.Sound) : 0 < call.chunk.bytes.length ∧
    call.chunk.bytes.length ≤ videoMaxFrags * videoMaxFragmentBytes ∧
    ∀ desc, call.chunk.description = some desc →
      0 < desc.length ∧ desc.length ≤ videoMaxDescBytes := by
  have h := H.isFrame
  rw [VideoStream.isFrame, Bool.and_eq_true, Bool.and_eq_true, decide_eq_true_eq, decide_eq_true_eq,
    Option.all_eq_true] at h
  refine ⟨h.1.1, h.1.2, fun desc hdesc => ?_⟩
  have hdesc := h.2 desc hdesc
  rw [Bool.and_eq_true, decide_eq_true_eq, decide_eq_true_eq] at hdesc
  exact hdesc

theorem part_eq (H : call.Sound) :
    (splitVideoFrame call.chunk.bytes)[call.i]? = some call.part := by
  rw [← H.parts, EncodeCall.part, getD_eq_getElem?_getD, getElem?_eq_getElem H.lt]
  rfl

theorem length_part (H : call.Sound) :
    0 < call.part.length ∧ call.part.length ≤ videoMaxFragmentBytes :=
  length_fragment H.bounds.1 H.part_eq

theorem length_parts_le (H : call.Sound) : call.parts.length ≤ videoMaxFrags :=
  H.parts ▸ length_splitVideoFrame_le H.bounds.2.1

end EncodeCall.Sound

/-- What the receiver makes of the packet of a fragment. -/
def VideoCall.packet (c : VideoCall) (C : CallCipher) (call : EncodeCall) : VideoPacket where
  callId := c.callId
  stream := c.kind
  seq := call.fragmentSeq
  frag := call.i
  frags := call.parts.length
  key := call.chunk.key
  data := encryptCallPayload C call.part (callVideoIvDirection c.kind c.role true) call.fragmentSeq
  codec := some c.codecName
  w := some c.width
  h := some c.height
  ts := some call.chunk.timestamp
  desc := if call.i = 0 then call.chunk.description.map fun desc => .str (bytesToBase64 desc)
    else none

theorem sanitizeCallVideo_message (hC : C.Lawful) (H : call.Sound) :
    sanitizeCallVideo (c.message C call) = some (c.packet C call) := by
  have hseq : safeSeq? (some (.num call.fragmentSeq)) = some call.fragmentSeq := by
    have hlt := H.seq
    have hmax : maxSafeInteger = 2 ^ 53 - 1 := rfl
    rw [safeSeq?, Json.number?]
    dsimp only
    rw [if_pos, Int.toNat_natCast]
    rw [Bool.and_eq_true, decide_eq_true_eq, decide_eq_true_eq, hmax]
    omega
  have hcallId : boundedString (some (.str c.callId)) callIdMaxLen = c.callId := by
    rw [boundedString, if_neg]
    rw [Bool.or_eq_true, decide_eq_true_eq, decide_eq_true_eq, not_or, Nat.not_lt]
    exact c.callId_ok
  have hdata : payloadWithin (some (.str (encryptCallPayload C call.part
      (callVideoIvDirection c.kind c.role true) call.fragmentSeq))) videoMaxPacketB64 = true := by
    have hpart := H.length_part
    have hsize : videoMaxFragmentBytes = 24576 := rfl
    have hmax : videoMaxPacketB64 = 32862 := rfl
    rw [payloadWithin, encryptCallPayload, utf16Length_bytesToBase64, hC.length_encrypt,
      Bool.and_eq_true, decide_eq_true_eq, decide_eq_true_eq, hmax]
    omega
  have hdesc : descWithin (c.message C call).desc = true := by
    rw [VideoCall.message]
    split
    · cases hdescription : call.chunk.description with
      | none => rfl
      | some desc =>
        have hmax : videoMaxDescB64 = 10931 := rfl
        have hlength := (H.bounds.2.2 desc hdescription).2
        rw [videoMaxDescBytes] at hlength
        rw [map_some, descWithin, utf16Length_bytesToBase64, decide_eq_true_eq, hmax]
        omega
    · rfl
  have hsize : isPlausibleVideoSize (some (.num c.width)) (some (.num c.height)) = true := by
    have hwidth := c.width_bounds
    have hheight := c.height_bounds
    change (decide (1 ≤ c.width) && decide (1 ≤ c.height) && decide (c.width ≤ videoMaxWidth) &&
      decide (c.height ≤ videoMaxHeight)) = true
    rw [decide_eq_true hwidth.1, decide_eq_true hwidth.2, decide_eq_true hheight.1,
      decide_eq_true hheight.2]
    rfl
  have hfrags : ¬ ((call.parts.length : Int) < 1 || (call.parts.length : Int) > videoMaxFrags) := by
    have hlt := H.lt
    have hle := H.length_parts_le
    rw [Bool.or_eq_true, decide_eq_true_eq, decide_eq_true_eq]
    omega
  have hfrag : ¬ ((call.i : Int) < 0 || (call.i : Int) ≥ call.parts.length) := by
    have hlt := H.lt
    rw [Bool.or_eq_true, decide_eq_true_eq, decide_eq_true_eq]
    omega
  have hcodec : ¬ (!isNullish (some (.str c.codecName)) &&
      !isAllowedVideoCodec (fieldText (some (.str c.codecName)))) = true := by
    rw [c.fieldText_codecName, c.isAllowedVideoCodec_codecName, Bool.not_true, Bool.and_false]
    exact Bool.false_ne_true
  have hlength : ¬ utf16Length (fieldText (some (.str c.codecName))) > callMaxCodecLen := by
    rw [c.fieldText_codecName]
    exact Nat.not_lt.mpr c.utf16Length_codecName
  have hstream : (if some (Json.str c.kind.name) = some (.str "screen") then StreamKind.screen
      else .camera) = c.kind := by
    cases c.kind <;> decide
  have hkey : decide (some (Json.bool call.chunk.key) = some (.bool true)) = call.chunk.key := by
    cases call.chunk.key <;> decide
  have hnullish : ∀ desc : Option Json, (∀ x, desc = some x → x ≠ .null) →
      (if isNullish desc then none else desc) = desc := by
    intro desc hne
    match desc with
    | none => rfl
    | some .null => exact absurd rfl (hne _ rfl)
    | some (.bool _) | some (.num _) | some (.str _) | some (.arr _) | some (.obj _) => rfl
  have hdescription : ∀ x, (if call.i = 0 then
      call.chunk.description.map fun desc => Json.str (bytesToBase64 desc) else none) = some x →
      x ≠ .null := by
    intro x hx
    split at hx
    · obtain ⟨desc, -, rfl⟩ := map_eq_some_iff.mp hx
      exact Json.noConfusion
    · cases hx
  rw [VideoCall.message] at hdesc ⊢
  rw [sanitizeCallVideo]
  rw [hseq, hcallId]
  dsimp only [Json.number?]
  rw [if_neg c.callId_ok.1, if_neg hfrags, if_neg hfrag, if_neg (by rw [hdata]; decide),
    if_neg hcodec, if_neg hlength, if_neg (by rw [hsize]; decide), if_neg (by rw [hdesc]; decide),
    hstream, hkey, hnullish _ hdescription]
  rfl

/-- What reaches the reassembler. -/
def VideoCall.fragment (c : VideoCall) (call : EncodeCall) : FragmentMessage where
  stream := c.kind
  seq := call.fragmentSeq
  frag := call.i
  frags := call.parts.length
  key := call.chunk.key
  ts := some call.chunk.timestamp
  codec := some c.codecName
  w := some c.width
  h := some c.height
  data := call.part
  desc := if call.i = 0 then call.chunk.description else none

theorem pushRemotePacket_packet (hC : C.Lawful) (H : call.Sound) (r : Reassembler) (now : Int) :
    pushRemotePacket C c.role.other r (c.packet C call) now = r.push (c.fragment call) now := by
  have hdirection : callVideoIvDirection c.kind c.role.other false =
      callVideoIvDirection c.kind c.role true := by
    cases c.kind <;> cases c.role <;> rfl
  have hdecrypt : decryptCallPayload C (encryptCallPayload C call.part
      (callVideoIvDirection c.kind c.role true) call.fragmentSeq)
      (callVideoIvDirection c.kind c.role true) call.fragmentSeq = some call.part := by
    rw [decryptCallPayload, encryptCallPayload, base64ToBytes_bytesToBase64, bind_some,
      hC.decrypt_encrypt]
  have hdesc : descBytes (if call.i = 0 then
      call.chunk.description.map fun desc => Json.str (bytesToBase64 desc) else none) =
      if call.i = 0 then call.chunk.description else none := by
    split
    · cases hdescription : call.chunk.description with
      | none => rfl
      | some desc =>
        have hpos := (H.bounds.2.2 desc hdescription).1
        have hne : bytesToBase64 desc ≠ "" := by
          intro h
          have hlength : utf16Length (bytesToBase64 desc) = (desc.length + 2) / 3 * 4 :=
            utf16Length_bytesToBase64
          rw [h] at hlength
          have hzero : utf16Length "" = 0 := rfl
          omega
        rw [map_some, descBytes, if_neg hne, base64ToBytes_bytesToBase64]
    · rfl
  rw [pushRemotePacket, VideoCall.packet]
  rw [hdirection, hdecrypt]
  dsimp only
  rw [if_neg (Nat.not_lt.mpr H.length_part.2), hdesc, VideoCall.fragment]

end Bluetalk.Calls

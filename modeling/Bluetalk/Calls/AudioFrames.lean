import Bluetalk.Theory.BigEndian

/-!
# Packed audio frames

`frames.js`: frames go into a packet one after the other, each with its length in two bytes before
it. What comes out of a packet are parts of its buffer.
-/

open List

namespace Bluetalk.Calls

def audioMaxPackedFrames : Nat := 8
def audioMaxPackedFrameBytes : Nat := 4 * 1024

/-- A part of a buffer, as `subarray` gives it -/
structure Subarray where
  offset : Nat
  length : Nat

def Subarray.bytes (v : Subarray) (buffer : Bytes) : Bytes := (buffer.drop v.offset).take v.length

def packedFrame (bytes : Bytes) : Bytes := bigEndian 2 bytes.length ++ bytes

/-- `none` stands for the error `frame_too_long`. -/
def packLengthPrefixedFrames (chunks : List Bytes) : Option Bytes :=
  if chunks.any (0xffff < ·.length) then none else some (chunks.flatMap packedFrame)

/-- The loop, with the number of frames that may still come. `none` stands for a byte that is read
outside the buffer. -/
def unpackFrom (buffer : Bytes) (maxFrameBytes : Nat) : Nat → Nat → Option (List Subarray)
  | 0, _ => some []
  | more + 1, offset =>
    if offset + 2 ≤ buffer.length then
      match buffer[offset]?, buffer[offset + 1]? with
      | some high, some low =>
        let length := high.toNat * 256 + low.toNat
        if maxFrameBytes < length || buffer.length < offset + 2 + length then some []
        else (unpackFrom buffer maxFrameBytes more (offset + 2 + length)).map
          (⟨offset + 2, length⟩ :: ·)
      | _, _ => none
    else some []

def unpackLengthPrefixedFrames (packed : Bytes) (maxFrames : Nat := audioMaxPackedFrames)
    (maxFrameBytes : Nat := audioMaxPackedFrameBytes) : Option (List Subarray) :=
  unpackFrom packed maxFrameBytes maxFrames 0

/-- The parts lie in the buffer, each right behind the one before it and its length. -/
def InLine (buffer : Bytes) : Nat → List Subarray → Prop
  | _, [] => True
  | offset, v :: vs => v.offset = offset + 2 ∧ v.offset + v.length ≤ buffer.length ∧
      v.length = ofBigEndian ((buffer.drop offset).take 2) ∧
      InLine buffer (v.offset + v.length) vs

variable {buffer before : Bytes} {maxFrames maxFrameBytes offset more : Nat}
  {frames : List Bytes}

/-- The two bytes that are read are there. -/
theorem unpackFrom_succ : unpackFrom buffer maxFrameBytes (more + 1) offset =
    if offset + 2 ≤ buffer.length then
      let length := ofBigEndian ((buffer.drop offset).take 2)
      if maxFrameBytes < length || buffer.length < offset + 2 + length then some []
      else (unpackFrom buffer maxFrameBytes more (offset + 2 + length)).map
        (⟨offset + 2, length⟩ :: ·)
    else some [] := by
  rw [unpackFrom]
  split
  next hbytes =>
    have hheader : ofBigEndian ((buffer.drop offset).take 2) =
        buffer[offset].toNat * 256 + buffer[offset + 1].toNat := by
      rw [drop_eq_getElem_cons (by omega), take_succ_cons, drop_eq_getElem_cons (by omega),
        take_succ_cons, take_zero, ofBigEndian]
      simp [Nat.mul_comm]
    rw [getElem?_eq_getElem (by omega), getElem?_eq_getElem (by omega), hheader]
  · rfl

theorem unpackFrom_inLine : ∃ vs, unpackFrom buffer maxFrameBytes maxFrames offset = some vs ∧
    vs.length ≤ maxFrames ∧ (∀ v ∈ vs, v.length ≤ maxFrameBytes) ∧ InLine buffer offset vs := by
  induction maxFrames generalizing offset with
  | zero => exact ⟨[], rfl, le_rfl, fun _ h => absurd h not_mem_nil, trivial⟩
  | succ more ih =>
    have hnone : ∃ vs, some [] = some vs ∧ vs.length ≤ more + 1 ∧
        (∀ v ∈ vs, v.length ≤ maxFrameBytes) ∧ InLine buffer offset vs :=
      ⟨[], rfl, Nat.zero_le _, fun _ h => absurd h not_mem_nil, trivial⟩
    rw [unpackFrom_succ]
    dsimp only
    split
    · split
      · exact hnone
      next hroom =>
      rw [Bool.or_eq_true, decide_eq_true_eq, decide_eq_true_eq, not_or, not_lt, not_lt] at hroom
      obtain ⟨vs, hvs, hcount, hlength, hline⟩ :=
        @ih (offset + 2 + ofBigEndian ((buffer.drop offset).take 2))
      exact ⟨⟨offset + 2, _⟩ :: vs, by rw [hvs]; rfl, Nat.succ_le_succ hcount,
        forall_mem_cons.mpr ⟨hroom.1, hlength⟩,
        rfl, hroom.2, rfl, hline⟩
    · exact hnone

/-- What is packed behind `before` comes out again. -/
theorem unpackFrom_packed (hcount : frames.length ≤ maxFrames)
    (hlength : ∀ f ∈ frames, f.length ≤ maxFrameBytes ∧ f.length ≤ 0xffff)
    (hbuffer : buffer = before ++ frames.flatMap packedFrame) :
    (unpackFrom buffer maxFrameBytes maxFrames before.length).map
      (fun vs => vs.map (·.bytes buffer)) = some frames := by
  induction frames generalizing before maxFrames with
  | nil =>
    rw [flatMap_nil, append_nil] at hbuffer
    subst hbuffer
    cases maxFrames with
    | zero => rfl
    | succ more =>
      rw [unpackFrom_succ, if_neg (by omega)]
      rfl
  | cons f frames ih =>
    obtain ⟨more, rfl⟩ := Nat.exists_eq_succ_of_ne_zero (Nat.ne_of_gt (Nat.zero_lt_of_lt hcount))
    rw [forall_mem_cons] at hlength
    obtain ⟨⟨hmax, hword⟩, hlength⟩ := hlength
    have hsize : (packedFrame f).length = 2 + f.length := by
      rw [packedFrame, length_append, length_bigEndian]
    have hnext := @ih (before ++ packedFrame f) more (Nat.le_of_succ_le_succ hcount) hlength
      (by rw [hbuffer, flatMap_cons, append_assoc])
    rw [length_append, hsize, ← Nat.add_assoc] at hnext
    have hread : buffer.drop before.length =
        bigEndian 2 f.length ++ (f ++ frames.flatMap packedFrame) := by
      rw [hbuffer, drop_left, flatMap_cons, packedFrame, append_assoc]
    have hheader : ofBigEndian ((buffer.drop before.length).take 2) = f.length := by
      rw [hread, take_left' length_bigEndian, ofBigEndian_bigEndian_of_lt (by omega)]
    have hend : before.length + 2 + f.length ≤ buffer.length := by
      rw [hbuffer, length_append, flatMap_cons, length_append, hsize]
      omega
    have hbytes : Subarray.bytes ⟨before.length + 2, f.length⟩ buffer = f := by
      rw [Subarray.bytes, ← drop_drop, hread, drop_left' length_bigEndian, take_left]
    have hroom : ¬(maxFrameBytes < f.length || buffer.length < before.length + 2 + f.length) := by
      rw [Bool.or_eq_true, decide_eq_true_eq, decide_eq_true_eq]
      omega
    rw [unpackFrom_succ, if_pos (by omega), hheader]
    rw [if_neg hroom, Option.map_map]
    obtain ⟨vs, hvs, hframes⟩ := Option.map_eq_some_iff.mp hnext
    rw [hvs, Option.map_some, Function.comp_apply, map_cons, hbytes, hframes]

/-- Up to eight frames of up to four KiB are got out of their packet again. Out of any bytes come
parts of them, one behind the other, and nothing is read outside. -/
theorem unpackLengthPrefixedFrames_pack (hcount : frames.length ≤ audioMaxPackedFrames)
    (hlength : ∀ f ∈ frames, f.length ≤ audioMaxPackedFrameBytes) :
    (∃ packed vs, packLengthPrefixedFrames frames = some packed ∧
      unpackLengthPrefixedFrames packed = some vs ∧ vs.map (·.bytes packed) = frames) ∧
    ∀ buffer maxFrames maxFrameBytes, ∃ vs,
      unpackLengthPrefixedFrames buffer maxFrames maxFrameBytes = some vs ∧
      vs.length ≤ maxFrames ∧ (∀ v ∈ vs, v.length ≤ maxFrameBytes) ∧ InLine buffer 0 vs := by
  refine ⟨?_, fun _ _ _ => unpackFrom_inLine⟩
  have hword : ∀ f ∈ frames, f.length ≤ 0xffff := fun f hf => (hlength f hf).trans (by decide)
  have hpack : packLengthPrefixedFrames frames = some (frames.flatMap packedFrame) := by
    refine if_neg fun hlong => ?_
    obtain ⟨f, hf, hlong⟩ := any_eq_true.mp hlong
    exact absurd (hword f hf) (not_le.mpr (of_decide_eq_true hlong))
  obtain ⟨vs, hvs, hframes⟩ := Option.map_eq_some_iff.mp (@unpackFrom_packed _ [] _ _ frames hcount
    (fun f hf => ⟨hlength f hf, hword f hf⟩) (nil_append _).symm)
  exact ⟨_, vs, hpack, hvs, hframes⟩

theorem unpackLengthPrefixedFrames_pack_two : ∃ packed vs,
    packLengthPrefixedFrames [[1, 2], []] = some packed ∧
      unpackLengthPrefixedFrames packed = some vs ∧ vs.map (·.bytes packed) = [[1, 2], []] :=
  (unpackLengthPrefixedFrames_pack (by decide) (by decide)).1

end Bluetalk.Calls

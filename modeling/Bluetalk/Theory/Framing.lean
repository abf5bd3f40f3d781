import Bluetalk.Theory.BigEndian

/-!
# Frames with their length before them

A frame goes into a stream of bytes as its length, in four bytes, and then itself. `unframe` takes
one frame off a stream and `unframeAll` as many as there are, each with a limit of its own.
-/

open List

namespace Bluetalk

/-- The start of a stream. -/
inductive Unframed
  /-- more bytes are needed -/
  | incomplete
  | oversized (length : Nat)
  | frame (bytes rest : Bytes)

def framed (bytes : Bytes) : Bytes := bigEndian 4 bytes.length ++ bytes

def framedAll (frames : List Bytes) : Bytes := frames.flatMap framed

def unframe (maximum : Nat) (stream : Bytes) : Unframed :=
  if stream.length < 4 then .incomplete
  else
    let length := ofBigEndian (stream.take 4)
    if maximum < length then .oversized length
    else if stream.length < 4 + length then .incomplete
    else .frame ((stream.drop 4).take length) (stream.drop (4 + length))

variable {maximum length n : Nat} {bytes rest stream more : Bytes} {frames : List Bytes}
  {limit : Nat → Nat}

/-- The header of a stream that has one. -/
theorem header_cases (h : ¬ stream.length < 4) : ∃ length rest, length < 256 ^ 4 ∧
    stream = bigEndian 4 length ++ rest ∧ ofBigEndian (stream.take 4) = length ∧
    stream.drop 4 = rest := by
  have htake : (stream.take 4).length = 4 := by
    rw [length_take]
    omega
  refine ⟨ofBigEndian (stream.take 4), stream.drop 4, ?_, ?_, rfl, rfl⟩
  · have hlt : ofBigEndian (stream.take 4) < 256 ^ (stream.take 4).length := ofBigEndian_lt
    rwa [htake] at hlt
  have heq : bigEndian (stream.take 4).length (ofBigEndian (stream.take 4)) = stream.take 4 :=
    bigEndian_ofBigEndian
  rw [htake] at heq
  rw [heq, take_append_drop]

theorem unframe_header (h : length < 256 ^ 4) : unframe maximum (bigEndian 4 length ++ rest) =
    if maximum < length then .oversized length
    else if rest.length < length then .incomplete
    else .frame (rest.take length) (rest.drop length) := by
  have hlength : (bigEndian 4 length ++ rest).length = 4 + rest.length := by
    rw [length_append, length_bigEndian]
  have htake : (bigEndian 4 length ++ rest).take 4 = bigEndian 4 length :=
    take_left' length_bigEndian
  have hdrop : ∀ k, (bigEndian 4 length ++ rest).drop (4 + k) = rest.drop k := by
    intro k
    rw [← drop_drop, drop_left' length_bigEndian]
  rw [unframe, hlength, if_neg (by omega), htake, ofBigEndian_bigEndian_of_lt h]
  dsimp only
  rw [hdrop]
  split
  · rfl
  split
  next hshort => rw [if_pos (by omega)]
  next hshort =>
  rw [if_neg (by omega)]
  exact congrArg (Unframed.frame · _) (congrArg (List.take length) (hdrop 0))

/-- A frame is taken off a stream that begins with it and its length. -/
theorem unframe_eq_frame : unframe maximum stream = .frame bytes rest ↔
    stream = framed bytes ++ rest ∧ bytes.length ≤ maximum ∧ bytes.length < 256 ^ 4 := by
  constructor
  · intro h
    by_cases hshort : stream.length < 4
    · rw [unframe, if_pos hshort] at h
      cases h
    obtain ⟨length, tail, hlt, rfl, -, -⟩ := header_cases hshort
    rw [unframe_header hlt] at h
    split at h
    · cases h
    next hmax =>
    split at h
    · cases h
    next hlong =>
    cases h
    have htake : (tail.take length).length = length := by
      rw [length_take]
      omega
    rw [framed, htake, append_assoc, take_append_drop]
    exact ⟨rfl, Nat.le_of_not_lt hmax, hlt⟩
  · rintro ⟨rfl, hmax, hlt⟩
    rw [framed, append_assoc, unframe_header hlt, if_neg (Nat.not_lt.mpr hmax),
      if_neg (by rw [length_append]; omega), take_left, drop_left]

theorem unframe_eq_oversized : unframe maximum stream = .oversized length ↔
    ∃ rest, stream = bigEndian 4 length ++ rest ∧ maximum < length ∧ length < 256 ^ 4 := by
  constructor
  · intro h
    by_cases hshort : stream.length < 4
    · rw [unframe, if_pos hshort] at h
      cases h
    obtain ⟨length', tail, hlt, rfl, -, -⟩ := header_cases hshort
    rw [unframe_header hlt] at h
    split at h
    next hmax =>
      cases h
      exact ⟨tail, rfl, hmax, hlt⟩
    · split at h <;> cases h
  · rintro ⟨rest, rfl, hmax, hlt⟩
    rw [unframe_header hlt, if_pos hmax]

theorem length_lt_of_unframe (h : unframe maximum stream = .frame bytes rest) :
    rest.length < stream.length := by
  obtain ⟨rfl, -⟩ := unframe_eq_frame.mp h
  rw [framed, length_append, length_append, length_bigEndian]
  omega

/-- The frames of a stream, the `i`-th of them within `limit (n + i)`; and the length that is
announced of one that is not. -/
def unframeAll (limit : Nat → Nat) (n : Nat) (stream : Bytes) : List Bytes × Option Nat :=
  match h : unframe (limit n) stream with
  | .incomplete => ([], none)
  | .oversized length => ([], some length)
  | .frame bytes rest =>
    have : rest.length < stream.length := length_lt_of_unframe h
    let (frames, length) := unframeAll limit (n + 1) rest
    (bytes :: frames, length)
termination_by stream.length

/-- Frames that their limits let through. -/
def Fit (limit : Nat → Nat) (n : Nat) (frames : List Bytes) : Prop :=
  ∀ i bytes, frames[i]? = some bytes → bytes.length ≤ limit (n + i) ∧ bytes.length < 256 ^ 4

theorem Fit.cons (h : Fit limit n (bytes :: frames)) :
    (bytes.length ≤ limit n ∧ bytes.length < 256 ^ 4) ∧ Fit limit (n + 1) frames := by
  refine ⟨h 0 bytes rfl, fun i b hb => ?_⟩
  have := h (i + 1) b hb
  rwa [Nat.add_comm i, ← Nat.add_assoc] at this

theorem Fit.concat (h : Fit limit n frames)
    (hbytes : bytes.length ≤ limit (n + frames.length) ∧ bytes.length < 256 ^ 4) :
    Fit limit n (frames ++ [bytes]) := by
  intro i b hb
  rcases Nat.lt_or_ge i frames.length with hi | hi
  · rw [getElem?_append_left hi] at hb
    exact h i b hb
  rw [getElem?_append_right hi] at hb
  have hzero : i = frames.length := by
    have := (List.getElem?_eq_some_iff.mp hb).1
    rw [List.length_singleton] at this
    omega
  obtain rfl : b = bytes := mem_singleton.mp (mem_of_getElem? hb)
  rw [hzero]
  exact hbytes

theorem unframeAll_frame (h : unframe (limit n) stream = .frame bytes rest) :
    unframeAll limit n stream =
      (bytes :: (unframeAll limit (n + 1) rest).1, (unframeAll limit (n + 1) rest).2) := by
  rw [unframeAll]
  split
  next heq => cases h.symm.trans heq
  next heq => cases h.symm.trans heq
  next heq =>
  cases h.symm.trans heq
  rfl

theorem unframeAll_framed (hmax : bytes.length ≤ limit n) (hlt : bytes.length < 256 ^ 4) :
    unframeAll limit n (framed bytes ++ rest) =
      (bytes :: (unframeAll limit (n + 1) rest).1, (unframeAll limit (n + 1) rest).2) :=
  unframeAll_frame (unframe_eq_frame.mpr ⟨rfl, hmax, hlt⟩)

/-- The frames that a stream begins with are taken off it, one after the other. -/
theorem unframeAll_framedAll (h : Fit limit n frames) :
    unframeAll limit n (framedAll frames ++ rest) =
      (frames ++ (unframeAll limit (n + frames.length) rest).1,
        (unframeAll limit (n + frames.length) rest).2) := by
  induction frames generalizing n with
  | nil => rfl
  | cons bytes frames ih =>
    obtain ⟨⟨hmax, hlt⟩, hrest⟩ := h.cons
    have hsplit : framedAll (bytes :: frames) ++ rest = framed bytes ++ (framedAll frames ++ rest) :=
      append_assoc _ _ _
    rw [hsplit, unframeAll_framed hmax hlt, ih hrest, length_cons, Nat.add_right_comm,
      Nat.add_assoc]
    rfl

theorem unframeAll_incomplete (h : unframe (limit n) stream = .incomplete) :
    unframeAll limit n stream = ([], none) := by
  rw [unframeAll]
  split
  · rfl
  next heq => cases h.symm.trans heq
  next heq => cases h.symm.trans heq

theorem unframeAll_oversized (h : unframe (limit n) stream = .oversized length) :
    unframeAll limit n stream = ([], some length) := by
  rw [unframeAll]
  split
  next heq => cases h.symm.trans heq
  next heq =>
    cases h.symm.trans heq
    rfl
  next heq => cases h.symm.trans heq

/-- Frames that a part of a stream holds are the first of the frames of the stream. -/
theorem prefix_of_framedAll {taken : List Bytes} (htaken : Fit limit n taken)
    (hframes : Fit limit n frames) (h : framedAll taken ++ rest <+: framedAll frames ++ more)
    (hmore : (unframeAll limit (n + frames.length) more).1 = []) : taken <+: frames := by
  obtain ⟨tail, heq⟩ := h
  have hall := congrArg (fun stream => (unframeAll limit n stream).1) heq
  rw [append_assoc, unframeAll_framedAll htaken, unframeAll_framedAll hframes, hmore,
    append_nil] at hall
  exact ⟨_, hall⟩

theorem framedAll_append {more : List Bytes} :
    framedAll (frames ++ more) = framedAll frames ++ framedAll more := flatMap_append

theorem framedAll_concat : framedAll (frames ++ [bytes]) = framedAll frames ++ framed bytes := by
  rw [framedAll_append]
  exact congrArg (_ ++ ·) (append_nil _)

end Bluetalk

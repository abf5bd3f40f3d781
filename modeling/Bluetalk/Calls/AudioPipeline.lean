import Mathlib.Order.Interval.Finset.Nat
import Bluetalk.Calls.JitterBuffer
import Bluetalk.Calls.VideoFragments

/-!
# Incoming audio

`pushRemotePacket` of `audioPipeline.js`. The number of a packet is marked before its decryption is
awaited, so a packet that cannot be decrypted still keeps others out.
-/

open List

namespace Bluetalk.Calls

def audioMaxPacketBytes : Nat := 8 * 1024

structure AudioPacket where
  seq : Option Json
  dataB64 : Option Json

/-- A receiver that is not closed, with the packets that it has not refused and the slots that its
buffer has given out. `pending` has the packets whose decryption is awaited. -/
structure AudioReceiver where
  jitter : JitterBuffer Bytes
  lastRecvSeq : Int := -1
  seenSeq : List Nat := []
  pending : List (Nat × Nat × Option Json) := []
  taken : List Nat := []
  emitted : List (Slot Bytes) := []

inductive AudioEvent
  | arrive (id : Nat) (packet : AudioPacket)
  /-- what `decryptCallPayload` makes of a packet is there -/
  | decrypted (id : Nat)
  | pull (now : Int)

def tooLong : Option Json → Bool
  | some (.str s) => (audioMaxPacketBytes + 64) * 2 < utf16Length s
  | _ => false

/-- A number is marked; of more than 400, the 200 smallest are forgotten. -/
def markSeen (seen : List Nat) (n : Nat) : List Nat :=
  let seen := seen ++ [n]
  if 400 < seen.length then
    let oldest := (seen.insertionSort (· ≤ ·)).take 200
    seen.filter (· ∉ oldest)
  else seen

namespace AudioReceiver

/-- The number of a packet that is not refused before its decryption -/
def accepts (r : AudioReceiver) (packet : AudioPacket) : Option Nat :=
  (safeSeq? packet.seq).filter fun n =>
    !tooLong packet.dataB64 && n ∉ r.seenSeq && !(0 ≤ r.lastRecvSeq && n < r.lastRecvSeq - 8)

def step (decrypt : Option Json → Nat → Option Bytes) (r : AudioReceiver) :
    AudioEvent → AudioReceiver
  | .arrive id packet =>
    match r.accepts packet with
    | none => r
    | some n =>
      { r with
        seenSeq := markSeen r.seenSeq n, lastRecvSeq := max r.lastRecvSeq n
        pending := r.pending ++ [(id, n, packet.dataB64)], taken := r.taken ++ [id] }
  | .decrypted id =>
    match r.pending.find? (·.1 = id) with
    | none => r
    | some (_, n, data) =>
      let r := { r with pending := r.pending.eraseP (·.1 = id) }
      match (decrypt data n).filter (·.length ≤ audioMaxPacketBytes) with
      | none => r
      | some plain => { r with jitter := (r.jitter.push n plain).2 }
  | .pull now =>
    let (slot, jitter) := r.jitter.pull now
    { r with jitter, emitted := r.emitted ++ slot.toList }

def run (decrypt : Option Json → Nat → Option Bytes) (r : AudioReceiver) (es : List AudioEvent) :
    AudioReceiver :=
  es.foldl (step decrypt) r

/-- A packet is dropped, if not at once then as it cannot be decrypted or is too large. -/
def Bad (decrypt : Option Json → Nat → Option Bytes) (packet : AudioPacket) : Prop :=
  ∀ n, safeSeq? packet.seq = some n → ¬ tooLong packet.dataB64 →
    ∀ plain, decrypt packet.dataB64 n = some plain → audioMaxPacketBytes < plain.length

/-- Whatever comes later, the other packets are taken and given out as if this one had not come. -/
def Harmless (decrypt : Option Json → Nat → Option Bytes) (r : AudioReceiver) (id : Nat)
    (packet : AudioPacket) : Prop :=
  ∀ es : List AudioEvent, (∀ other, .arrive id other ∉ es) →
    ((r.step decrypt (.arrive id packet)).run decrypt es).taken.filter (· ≠ id) =
        (r.run decrypt es).taken.filter (· ≠ id) ∧
      ((r.step decrypt (.arrive id packet)).run decrypt es).emitted = (r.run decrypt es).emitted

/-- What is marked is not beyond the last number. -/
structure Marked (r : AudioReceiver) : Prop where
  distinct : r.seenSeq.Nodup
  upTo : ∀ m ∈ r.seenSeq, (m : Int) ≤ r.lastRecvSeq

variable {decrypt : Option Json → Nat → Option Bytes} {r : AudioReceiver} {packet : AudioPacket}
  {seen : List Nat} {n k id : Nat} {e : AudioEvent} {es : List AudioEvent}

theorem accepts_eq_some : r.accepts packet = some n ↔ safeSeq? packet.seq = some n ∧
    tooLong packet.dataB64 = false ∧ n ∉ r.seenSeq ∧
      (0 ≤ r.lastRecvSeq → r.lastRecvSeq - 8 ≤ n) := by
  rw [accepts, Option.filter_eq_some_iff]
  simp [and_assoc, imp_iff_not_or]

theorem accepts_of_mem (hseq : safeSeq? packet.seq = some n) (h : n ∈ r.seenSeq) :
    r.accepts packet = none := by
  rw [accepts, hseq]
  simp [h]

theorem step_refused (h : r.accepts packet = none) : r.step decrypt (.arrive id packet) = r := by
  rw [step, h]

theorem taken_step (h : r.accepts packet = some n) :
    (r.step decrypt (.arrive id packet)).taken = r.taken ++ [id] := by
  rw [step, h]

theorem markSeen_sublist : (markSeen seen n).Sublist (seen ++ [n]) := by
  rw [markSeen]
  split
  · exact filter_sublist
  · exact .refl _

theorem marked_nodup (hnodup : seen.Nodup) (hnew : n ∉ seen) : (seen ++ [n]).Nodup := by
  rw [nodup_append_comm]
  exact nodup_cons.mpr ⟨hnew, hnodup⟩

/-- Of the marked numbers, at most eight are larger, so the number is none of the smallest. -/
theorem mem_markSeen {last : Nat} (hnodup : seen.Nodup) (hnew : n ∉ seen) (hk : k ∈ seen ++ [n])
    (hlast : ∀ m ∈ seen ++ [n], m ≤ last) (hnear : last ≤ k + 8) : k ∈ markSeen seen n := by
  rw [markSeen]
  split
  · rename_i hmany
    refine mem_filter.mpr ⟨hk, decide_eq_true fun hold => ?_⟩
    have hperm := perm_insertionSort (· ≤ ·) (seen ++ [n])
    have hsorted := pairwise_insertionSort (· ≤ ·) (seen ++ [n])
    have hdistinct := hperm.nodup_iff.mpr (marked_nodup hnodup hnew)
    rw [← take_append_drop 200 (List.insertionSort _ _)] at hsorted hdistinct
    rw [pairwise_append] at hsorted
    rw [nodup_append] at hdistinct
    have hlater : (((seen ++ [n]).insertionSort (· ≤ ·)).drop 200).toFinset ⊆
        Finset.Ioc k last := by
      intro m hm
      rw [mem_toFinset] at hm
      refine Finset.mem_Ioc.mpr ⟨lt_of_le_of_ne (hsorted.2.2 k hold m hm)
        (hdistinct.2.2 k hold m hm), hlast m (hperm.mem_iff.mp (mem_of_mem_drop hm))⟩
    have hcard := Finset.card_le_card hlater
    rw [toFinset_card_of_nodup hdistinct.2.1, Nat.card_Ioc, length_drop, hperm.length_eq] at hcard
    omega
  · exact hk

theorem Marked.step (H : r.Marked) : (r.step decrypt e).Marked := by
  cases e with
  | arrive id packet =>
    rw [AudioReceiver.step]
    split
    · exact H
    rename_i n hn
    obtain ⟨-, -, hnew, -⟩ := accepts_eq_some.mp hn
    refine ⟨(marked_nodup H.distinct hnew).sublist markSeen_sublist, fun m hm => ?_⟩
    rcases mem_append.mp (markSeen_sublist.mem hm) with hm | hm
    · exact (H.upTo m hm).trans (le_max_left ..)
    · rw [mem_singleton.mp hm]
      exact le_max_right ..
  | decrypted id =>
    rw [AudioReceiver.step]
    split
    · exact H
    split <;> exact ⟨H.distinct, H.upTo⟩
  | pull now => exact ⟨H.distinct, H.upTo⟩

theorem Marked.run (H : r.Marked) : (r.run decrypt es).Marked := by
  induction es generalizing r with
  | nil => exact H
  | cons e es ih => exact ih H.step

/-- A number that is not too old stays marked. -/
theorem Marked.marks (H : r.Marked) (hn : r.accepts packet = some n) (hk : k ∈ r.seenSeq ++ [n])
    (hnear : max r.lastRecvSeq n ≤ k + 8) : k ∈ (r.step decrypt (.arrive id packet)).seenSeq := by
  obtain ⟨-, -, hnew, -⟩ := accepts_eq_some.mp hn
  rw [AudioReceiver.step, hn]
  refine @mem_markSeen _ _ _ (max r.lastRecvSeq n).toNat H.distinct hnew hk (fun m hm => ?_)
    (by omega)
  rcases mem_append.mp hm with hm | hm
  · have := H.upTo m hm
    omega
  · rw [mem_singleton.mp hm]
    omega

/-- A number that has just been marked is refused. -/
theorem Marked.refuses (H : r.Marked) (hn : r.accepts packet = some n) :
    n ∈ (r.step decrypt (.arrive id packet)).seenSeq := by
  have hnear := (accepts_eq_some.mp hn).2.2.2
  exact H.marks hn (mem_append_right _ mem_cons_self) (by omega)

/-- The number of the packet that the receiver accepts -/
def number (r : AudioReceiver) : AudioEvent → Option Nat
  | .arrive _ packet => r.accepts packet
  | _ => none

def numbers (decrypt : Option Json → Nat → Option Bytes) : AudioReceiver → List AudioEvent → List Nat
  | _, [] => []
  | r, e :: es => (r.number e).toList ++ numbers decrypt (r.step decrypt e) es

/-- A number that is marked or too old -/
def Refuses (r : AudioReceiver) (k : Nat) : Prop := k ∈ r.seenSeq ∨ (k : Int) < r.lastRecvSeq - 8

theorem Refuses.number_ne (h : r.Refuses k) : r.number e ≠ some k := by
  intro hk
  cases e with
  | arrive id packet =>
    obtain ⟨-, -, hnew, hnear⟩ := accepts_eq_some.mp hk
    rcases h with h | h
    · exact hnew h
    · omega
  | decrypted | pull => cases hk

theorem Marked.refuses_step (H : r.Marked) (h : r.Refuses k ∨ r.number e = some k) :
    (r.step decrypt e).Refuses k := by
  cases e with
  | arrive id packet =>
    cases hn : r.accepts packet with
    | none =>
      rw [step_refused hn]
      exact h.resolve_right fun hk => by cases hn.symm.trans hk
    | some n =>
      have hlast : (r.step decrypt (.arrive id packet)).lastRecvSeq = max r.lastRecvSeq n := by
        rw [AudioReceiver.step, hn]
      rw [Refuses, hlast, or_iff_not_imp_right]
      intro hnear
      refine H.marks hn (mem_append.mpr ?_) (by omega)
      rcases h with (h | h) | h
      · exact .inl h
      · omega
      · exact .inr (mem_singleton.mpr (Option.some_inj.mp (h.symm.trans hn)))
  | decrypted id =>
    have h := h.resolve_right nofun
    rw [AudioReceiver.step]
    split
    · exact h
    split <;> exact h
  | pull now => exact h.resolve_right nofun

theorem Marked.not_mem_numbers (H : r.Marked) (h : r.Refuses k) : k ∉ numbers decrypt r es := by
  induction es generalizing r with
  | nil => exact not_mem_nil
  | cons e es ih =>
    rw [numbers, mem_append, Option.mem_toList]
    exact not_or.mpr ⟨h.number_ne, ih H.step (H.refuses_step (.inl h))⟩

theorem Marked.nodup_numbers (H : r.Marked) : (numbers decrypt r es).Nodup := by
  induction es generalizing r with
  | nil => exact .nil
  | cons e es ih =>
    rw [numbers]
    cases hk : r.number e with
    | none => exact ih H.step
    | some k => exact nodup_cons.mpr ⟨H.step.not_mem_numbers (H.refuses_step (.inr hk)), ih H.step⟩

/-- No number is accepted twice, though of more than 400 only the 200 largest are remembered. -/
theorem numbers_nodup {jitter : JitterBuffer Bytes} : (numbers decrypt { jitter } es).Nodup :=
  Marked.nodup_numbers ⟨.nil, fun _ hm => by cases hm⟩

/-- A bad packet, as any other, is harmless exactly if it is refused before its number is marked. -/
theorem harmless_iff_refused {jitter : JitterBuffer Bytes} :
    Harmless decrypt (run decrypt { jitter } es) id packet ↔
      (run decrypt { jitter } es).accepts packet = none := by
  have H : Marked (run decrypt { jitter } es) := Marked.run ⟨.nil, fun m hm => by cases hm⟩
  generalize run decrypt { jitter } es = r at H ⊢
  refine ⟨fun harmless => ?_, fun hnone es _ => by rw [step_refused hnone]; exact ⟨rfl, rfl⟩⟩
  by_contra haccepts
  obtain ⟨n, hn⟩ := Option.ne_none_iff_exists'.mp haccepts
  obtain ⟨hseq, -, hmarks⟩ := accepts_eq_some.mp hn
  -- a packet with the same number tells
  have hother : r.accepts ⟨packet.seq, none⟩ = some n := accepts_eq_some.mpr ⟨hseq, rfl, hmarks⟩
  have hrefused : (r.step decrypt (.arrive id packet)).accepts ⟨packet.seq, none⟩ = none :=
    accepts_of_mem hseq (H.refuses hn)
  have hlate := (harmless [.arrive (id + 1) ⟨packet.seq, none⟩] fun other h => by simp at h).1
  rw [run, run, foldl_cons, foldl_cons, foldl_nil, foldl_nil,
    step_refused hrefused, taken_step hn, taken_step hother, filter_append,
    filter_append] at hlate
  simp at hlate

/-- A packet of an unlikely number makes all later ones stale. -/
theorem bad_packet_silences : ¬ ∀ (decrypt : Option Json → Nat → Option Bytes) (packet : AudioPacket)
    (jitter : JitterBuffer Bytes) (es : List AudioEvent) (id : Nat), Bad decrypt packet →
      Harmless decrypt (run decrypt { jitter } es) id packet := by
  intro h
  let decrypt : Option Json → Nat → Option Bytes := fun data _ =>
    if data = some (.str "AAAA") then some [0, 0, 0] else none
  have harmless := h decrypt ⟨some (.num 9007199254740991), some (.str "BBBB")⟩
    (createJitterBuffer Bytes none none none) [] 0 (fun n _ _ plain hplain => by
      simp [decrypt] at hplain)
    [.arrive 1 ⟨some (.num 0), some (.str "AAAA")⟩, .decrypted 1, .pull 0] (by simp)
  have hemitted := congrArg List.length harmless.2
  revert hemitted
  decide +kernel

end AudioReceiver
end Bluetalk.Calls

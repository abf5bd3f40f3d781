import Mathlib.Data.List.Sort
import Bluetalk.Js.Number
import Bluetalk.Theory.Run

/-!
# The reorder buffer of a call

`createJitterBuffer` of `jitterBuffer.js`: packets of audio are put in the order of their numbers,
and a number that is missing is waited for. A queue that is full gives up its last packet, which
`push` has taken or takes just then.
-/

open List Option

namespace Bluetalk.Calls

structure JitterItem (δ : Type) where
  seq : Int
  payload : δ

structure JitterBuffer (δ : Type) where
  waitMs : Int
  maxQueued : Nat
  queue : List (JitterItem δ) := []
  nextSeq : Option Int := none
  gapSince : Option Int := none

/-- What `pull` gives out -/
inductive Slot (δ : Type)
  | packet (seq : Int) (payload : δ)
  | loss (seq : Int)

def Slot.seq {δ : Type} : Slot δ → Int
  | .packet seq _ | .loss seq => seq

def Slot.packet? {δ : Type} : Slot δ → Option (JitterItem δ)
  | .packet seq payload => some ⟨seq, payload⟩
  | .loss _ => none

def callPacketMs : Int := 60

/-- `createJitterBuffer`, for options that are missing or whole numbers -/
def createJitterBuffer (δ : Type) (packetMs waitMs maxQueued : Option Int) : JitterBuffer δ where
  waitMs := (waitMs.map (max 0 ·)).getD (max 1 ((packetMs.filter (· ≠ 0)).getD callPacketMs))
  maxQueued := (max 2 ((maxQueued.filter (· ≠ 0)).getD 16)).toNat

/-- `queue.sort((a, b) => a.seq - b.seq)` -/
def bySeq {δ : Type} (queue : List (JitterItem δ)) : List (JitterItem δ) :=
  queue.insertionSort fun x y => x.seq ≤ y.seq

namespace JitterBuffer

variable {δ : Type} (b : JitterBuffer δ)

def push (seq : Int) (payload : δ) : Bool × JitterBuffer δ :=
  if seq < 0 then (false, b)
  else if b.nextSeq.any (seq < ·) then (false, b)
  else if b.queue.any (·.seq = seq) then (false, b)
  else
    (true, { b with queue := (bySeq (b.queue ++ [⟨seq, payload⟩])).take b.maxQueued })

def pull (now : Int) : Option (Slot δ) × JitterBuffer δ :=
  match b.nextSeq.or (b.queue.head?.map (·.seq)) with
  | none => (none, b)
  | some nextSeq =>
    match b.queue.find? (·.seq = nextSeq) with
    | some item =>
      (some (.packet nextSeq item.payload),
        { b with
          queue := b.queue.eraseP (·.seq = nextSeq), nextSeq := some (Bluetalk.addOne nextSeq)
          gapSince := none })
    | none =>
      if b.queue.head?.any (nextSeq < ·.seq) then
        let gapSince := b.gapSince.getD now
        if b.waitMs ≤ now - gapSince then
          (some (.loss nextSeq), { b with nextSeq := some (Bluetalk.addOne nextSeq), gapSince := none })
        else (none, { b with nextSeq := some nextSeq, gapSince := some gapSince })
      else (none, { b with nextSeq := some nextSeq })

variable {b} {n now : Int} {item : JitterItem δ}

theorem pull_none (hn : b.nextSeq.or (b.queue.head?.map (·.seq)) = none) :
    b.pull now = (none, b) := by
  rw [pull, hn]

theorem pull_packet (hn : b.nextSeq.or (b.queue.head?.map (·.seq)) = some n)
    (hfind : b.queue.find? (·.seq = n) = some item) :
    b.pull now = (some (.packet n item.payload),
      { b with
        queue := b.queue.eraseP (·.seq = n), nextSeq := some (Bluetalk.addOne n), gapSince := none }) := by
  rw [pull, hn]
  simp only [hfind]

theorem pull_missing (hn : b.nextSeq.or (b.queue.head?.map (·.seq)) = some n)
    (hfind : b.queue.find? (·.seq = n) = none) :
    b.pull now =
      if b.queue.head?.any (n < ·.seq) then
        if b.waitMs ≤ now - b.gapSince.getD now then
          (some (.loss n), { b with nextSeq := some (Bluetalk.addOne n), gapSince := none })
        else (none, { b with nextSeq := some n, gapSince := some (b.gapSince.getD now) })
      else (none, { b with nextSeq := some n }) := by
  rw [pull, hn]
  simp only [hfind]

end JitterBuffer

/-- A buffer with what it has taken and given out. `gapSeen` is the time of the first pull since the
last slot that gave nothing out with packets in the queue. -/
structure Playout (δ : Type) where
  buffer : JitterBuffer δ
  accepted : List (JitterItem δ) := []
  emitted : List (Slot δ) := []
  now : Option Int := none
  gapSeen : Option Int := none

inductive PlayoutEvent (δ : Type)
  | push (seq : Int) (payload : δ)
  | pull (now : Int)

namespace Playout

variable {δ : Type}

def step (s : Playout δ) : PlayoutEvent δ → Option (Playout δ)
  | .push seq payload =>
    let r := s.buffer.push seq payload
    some { s with
      buffer := r.2
      accepted := if r.1 then s.accepted ++ [⟨seq, payload⟩] else s.accepted }
  | .pull now =>
    if s.now.any (now < ·) then none
    else
      let r := s.buffer.pull now
      some { s with
        buffer := r.2, emitted := s.emitted ++ r.1.toList, now := some now
        gapSeen := if r.1.isSome then none else if s.buffer.queue = [] then s.gapSeen
          else s.gapSeen.or (some now) }

/-- So many numbers from the first one on -/
def consecutive (first : Int) (n : Nat) : List Int := (List.range n).map fun (i : Nat) => first + i

/-- What holds of a buffer at all times: the slots are consecutive, a packet is lost that was never
taken, and what was taken is given out once. -/
structure Sound (s : Playout δ) : Prop where
  consecutive : ∃ first : Int, s.emitted.map Slot.seq = consecutive first s.emitted.length
  losses : ∀ n, Slot.loss n ∈ s.emitted → n ∉ s.accepted.map (·.seq)
  once : (s.emitted.filterMap Slot.packet? ++ s.buffer.queue).Perm s.accepted
  distinct : (s.accepted.map (·.seq)).Nodup
  few : s.buffer.queue.length ≤ s.buffer.maxQueued

/-- A gap is waited for no longer than that. -/
def Punctual (s : Playout δ) (e : PlayoutEvent δ) (s' : Playout δ) : Prop :=
  ∀ now g, e = .pull now → s.gapSeen = some g → s.buffer.waitMs ≤ now - g →
    s'.emitted.length = s.emitted.length + 1

/-- A packet has a safe number, as the receiver checks, and finds room in the queue. -/
def hasRoom (s : Playout δ) : PlayoutEvent δ → Bool
  | .push seq _ => seq < 2 ^ 53 && s.buffer.queue.length < s.buffer.maxQueued
  | .pull _ => true

/-- What holds of a buffer whose queue never overflows -/
structure Inv (s : Playout δ) : Prop where
  sorted : (s.buffer.queue.map (·.seq)).Pairwise (· < ·)
  safe : ∀ item ∈ s.buffer.queue, item.seq < 2 ^ 53
  fresh : s.buffer.nextSeq = none → s.emitted = []
  next : ∀ n, s.buffer.nextSeq = some n → (∀ item ∈ s.buffer.queue, n ≤ item.seq) ∧
    ∃ first, s.emitted.map Slot.seq = consecutive first s.emitted.length ∧
      first + s.emitted.length = n
  losses : ∀ n, Slot.loss n ∈ s.emitted → n ∉ s.accepted.map (·.seq)
  once : (s.emitted.filterMap Slot.packet? ++ s.buffer.queue).Perm s.accepted
  distinct : (s.accepted.map (·.seq)).Nodup
  few : s.buffer.queue.length ≤ s.buffer.maxQueued
  gap : s.buffer.gapSince = s.gapSeen
  later : s.gapSeen.isSome → s.buffer.queue ≠ [] ∧ s.buffer.nextSeq.isSome

variable {s s' : Playout δ} {e : PlayoutEvent δ} {es : List (PlayoutEvent δ)} {seq : Int}
  {payload : δ}

theorem bySeq_perm (queue : List (JitterItem δ)) : (bySeq queue).Perm queue :=
  perm_insertionSort ..

theorem bySeq_sorted {queue : List (JitterItem δ)} (h : (queue.map (·.seq)).Nodup) :
    ((bySeq queue).map (·.seq)).Pairwise (· < ·) := by
  have hsorted := pairwise_insertionSort (· ≤ ·) (queue.map (·.seq))
  rw [← map_insertionSort (fun x y : JitterItem δ => x.seq ≤ y.seq) (· ≤ ·) _ _
    fun _ _ _ _ => Iff.rfl] at hsorted
  have hnodup : ((bySeq queue).map (·.seq)).Nodup := ((bySeq_perm queue).map _).nodup_iff.mpr h
  exact (hsorted.and hnodup).imp fun h => lt_of_le_of_ne h.1 h.2

theorem consecutive_succ (first : Int) (n : Nat) :
    consecutive first (n + 1) = consecutive first n ++ [first + n] := by
  rw [consecutive, range_succ, map_append]
  rfl

theorem Slot.seq_of_packet? {slot : Slot δ} {item : JitterItem δ} (h : slot.packet? = some item) :
    slot.seq = item.seq := by
  cases slot with
  | packet => cases h; rfl
  | loss => cases h

/-- What has been given out is before the next slot. -/
theorem Inv.emitted_lt (H : s.Inv) {slot : Slot δ} (h : slot ∈ s.emitted) :
    ∃ n, s.buffer.nextSeq = some n ∧ slot.seq < n := by
  cases hn : s.buffer.nextSeq with
  | none =>
    rw [H.fresh hn] at h
    cases h
  | some n =>
    obtain ⟨-, first, hseqs, hlength⟩ := H.next n hn
    have hmem : slot.seq ∈ consecutive first s.emitted.length := hseqs ▸ mem_map_of_mem h
    obtain ⟨i, hi, hseq⟩ := mem_map.mp hmem
    rw [mem_range] at hi
    exact ⟨n, rfl, by omega⟩

/-- A number that is in no queue and not before the next slot is new. -/
theorem Inv.unknown (H : s.Inv) (hnew : seq ∉ s.buffer.queue.map (·.seq))
    (hnext : ∀ n, s.buffer.nextSeq = some n → n ≤ seq) : seq ∉ s.accepted.map (·.seq) := by
  intro hmem
  rw [← (H.once.map _).mem_iff, map_append, mem_append] at hmem
  rcases hmem with hmem | hmem
  · obtain ⟨item, hitem, rfl⟩ := mem_map.mp hmem
    obtain ⟨slot, hslot, hpacket⟩ := mem_filterMap.mp hitem
    obtain ⟨n, hn, hlt⟩ := H.emitted_lt hslot
    rw [Slot.seq_of_packet? hpacket] at hlt
    exact absurd (hnext n hn) (not_le.mpr hlt)
  · exact hnew hmem

theorem Inv.push (H : s.Inv) (hroom : s.hasRoom (.push seq payload) = true)
    (hstep : s.step (.push seq payload) = some s') : s'.Inv := by
  simp only [hasRoom, Bool.and_eq_true, decide_eq_true_eq] at hroom
  obtain ⟨hsafe, hlength⟩ := hroom
  simp only [step, Option.some.injEq] at hstep
  subst hstep
  rw [JitterBuffer.push]
  split
  · exact H
  split
  · exact H
  rename_i hold
  split
  · exact H
  rename_i hnew
  have hold : ∀ n, s.buffer.nextSeq = some n → n ≤ seq := by
    intro n hn
    rw [hn] at hold
    simpa using hold
  have hnew : seq ∉ s.buffer.queue.map (·.seq) := by
    intro hmem
    obtain ⟨item, hitem, hseq⟩ := mem_map.mp hmem
    exact hnew (any_eq_true.mpr ⟨item, hitem, decide_eq_true hseq⟩)
  have hperm := bySeq_perm (s.buffer.queue ++ [⟨seq, payload⟩])
  have hmem : ∀ item ∈ bySeq (s.buffer.queue ++ [⟨seq, payload⟩]),
      item ∈ s.buffer.queue ∨ item.seq = seq := by
    intro item hitem
    rcases mem_append.mp (hperm.mem_iff.mp hitem) with hitem | hitem
    · exact .inl hitem
    · exact .inr (by rw [mem_singleton.mp hitem])
  have hall : (bySeq (s.buffer.queue ++ [⟨seq, payload⟩])).length ≤ s.buffer.maxQueued := by
    rw [hperm.length_eq, length_append]
    exact hlength
  have hunknown := H.unknown hnew hold
  simp only [if_true, take_of_length_le hall]
  refine ⟨?_, ?_, H.fresh, ?_, ?_, ?_, ?_, hall, H.gap, ?_⟩
  · refine bySeq_sorted ?_
    rw [map_append, nodup_append_comm]
    exact nodup_cons.mpr ⟨hnew, H.sorted.imp ne_of_lt⟩
  · intro item hitem
    rcases hmem item hitem with hitem | hitem
    · exact H.safe item hitem
    · exact hitem ▸ hsafe
  · intro n hn
    refine ⟨fun item hitem => ?_, (H.next n hn).2⟩
    rcases hmem item hitem with hitem | hitem
    · exact (H.next n hn).1 item hitem
    · exact hitem ▸ hold n hn
  · intro n hn hmem
    rw [map_append, mem_append] at hmem
    rcases hmem with hmem | hmem
    · exact H.losses n hn hmem
    · obtain ⟨m, hm, hlt⟩ := H.emitted_lt hn
      obtain rfl : n = seq := mem_singleton.mp hmem
      exact absurd (hold m hm) (not_le.mpr hlt)
  · have hqueue := hperm.append_left (s.emitted.filterMap Slot.packet?)
    rw [← append_assoc] at hqueue
    exact hqueue.trans (H.once.append_right _)
  · rw [map_append, nodup_append_comm]
    exact nodup_cons.mpr ⟨hunknown, H.distinct⟩
  · intro hgap
    refine ⟨fun hempty => ?_, (H.later hgap).2⟩
    dsimp only at hempty
    have hcount := hperm.length_eq
    rw [hempty, length_append] at hcount
    cases hcount

/-- The slot that is due -/
theorem Inv.due (H : s.Inv) {n : Int}
    (hn : s.buffer.nextSeq.or (s.buffer.queue.head?.map (·.seq)) = some n) :
    (∀ item ∈ s.buffer.queue, n ≤ item.seq) ∧ (∀ m, s.buffer.nextSeq = some m → m ≤ n) ∧
      ∃ first, s.emitted.map Slot.seq = consecutive first s.emitted.length ∧
        first + s.emitted.length = n := by
  cases hnext : s.buffer.nextSeq with
  | some m =>
    rw [hnext, some_or, Option.some.injEq] at hn
    subst hn
    exact ⟨(H.next m hnext).1, fun k hk => (some.inj hk).ge, (H.next m hnext).2⟩
  | none =>
    rw [hnext, none_or] at hn
    refine ⟨?_, fun m hm => (by cases hm), n, ?_, ?_⟩
    · have hsorted := H.sorted
      cases hqueue : s.buffer.queue with
      | nil => exact fun item hitem => by cases hitem
      | cons first rest =>
        rw [hqueue] at hn hsorted
        obtain rfl := some.inj hn
        rw [map_cons, pairwise_cons] at hsorted
        exact forall_mem_cons.mpr ⟨le_rfl, fun item hitem =>
          (hsorted.1 _ (mem_map_of_mem hitem)).le⟩
    · rw [H.fresh hnext]
      rfl
    · rw [H.fresh hnext]
      exact add_zero n

/-- The slot that is due is given out. -/
theorem Inv.emit (H : s.Inv) {slot : Slot δ} {queue : List (JitterItem δ)} {now : Int}
    (hn : s.buffer.nextSeq.or (s.buffer.queue.head?.map (·.seq)) = some slot.seq)
    (hqueue : queue.Sublist s.buffer.queue) (hlater : ∀ item ∈ queue, slot.seq < item.seq)
    (hsafe : slot.seq < 2 ^ 53) (hloss : ∀ n, slot = .loss n → n ∉ s.accepted.map (·.seq))
    (hperm : (slot.packet?.toList ++ queue).Perm s.buffer.queue) :
    Inv { s with
      buffer := { s.buffer with queue, nextSeq := some (Bluetalk.addOne slot.seq), gapSince := none }
      emitted := s.emitted ++ [slot], now := some now, gapSeen := none } := by
  obtain ⟨-, -, first, hseqs, hlength⟩ := H.due hn
  have hone : Bluetalk.addOne slot.seq = slot.seq + 1 := if_pos hsafe
  refine ⟨H.sorted.sublist (hqueue.map _), fun item hitem => H.safe item (hqueue.mem hitem),
    fun h => (by cases h), fun n hn => ?_, fun n hn => ?_, ?_, H.distinct,
    hqueue.length_le.trans H.few, rfl, fun h => (by cases h)⟩
  · obtain rfl := some.inj hn
    rw [hone]
    refine ⟨fun item hitem => Int.add_one_le_of_lt (hlater item hitem), first, ?_, ?_⟩
    · rw [map_append, hseqs, length_append, length_singleton, consecutive_succ, hlength]
      rfl
    · rw [length_append, length_singleton]
      push_cast
      omega
  · rcases mem_append.mp hn with hn | hn
    · exact H.losses n hn
    · exact hloss n (mem_singleton.mp hn).symm
  · have htail : ([slot].filterMap Slot.packet? ++ queue).Perm s.buffer.queue := by
      cases slot <;> exact hperm
    rw [filterMap_append, append_assoc]
    exact (htail.append_left _).trans H.once

/-- Nothing is given out. -/
theorem Inv.wait (H : s.Inv) {n now : Int} {gap : Option Int}
    (hn : s.buffer.nextSeq.or (s.buffer.queue.head?.map (·.seq)) = some n)
    (hgap : gap.isSome → s.buffer.queue ≠ []) :
    Inv { s with
      buffer := { s.buffer with nextSeq := some n, gapSince := gap }
      now := some now, gapSeen := gap } := by
  obtain ⟨hqueue, -, hseqs⟩ := H.due hn
  refine ⟨H.sorted, H.safe, fun h => (by cases h), fun m hm => ?_, H.losses, H.once, H.distinct,
    H.few, rfl, fun h => ⟨hgap h, rfl⟩⟩
  obtain rfl := some.inj hm
  exact ⟨hqueue, hseqs⟩

theorem Inv.pull (H : s.Inv) {now : Int} (hstep : s.step (.pull now) = some s') :
    s'.Inv ∧ Punctual s (.pull now) s' := by
  rw [step, ite_none_left_eq_some] at hstep
  obtain ⟨-, hs'⟩ := hstep
  obtain rfl := some.inj hs'
  cases hn : s.buffer.nextSeq.or (s.buffer.queue.head?.map (·.seq)) with
  | none =>
    obtain ⟨hnext, hhead⟩ := or_eq_none_iff.mp hn
    have hempty : s.buffer.queue = [] := head?_eq_none_iff.mp (map_eq_none_iff.mp hhead)
    have hnone : s.gapSeen = none := not_isSome_iff_eq_none.mp fun h => (H.later h).1 hempty
    refine ⟨?_, fun _ g _ hg => by rw [hnone] at hg; cases hg⟩
    simp only [JitterBuffer.pull_none hn, isSome_none, Bool.false_eq_true, if_false,
      if_pos hempty, toList_none, append_nil]
    exact ⟨H.sorted, H.safe, H.fresh, H.next, H.losses, H.once, H.distinct, H.few, H.gap, H.later⟩
  | some n =>
    obtain ⟨hqueue, hnext, -⟩ := H.due hn
    cases hfind : s.buffer.queue.find? (·.seq = n) with
    | some item =>
      have hseq : item.seq = n := by simpa using find?_some hfind
      subst hseq
      obtain ⟨-, l₁, l₂, hl, hnot⟩ := find?_eq_some_iff_append.mp hfind
      have herase : s.buffer.queue.eraseP (·.seq = item.seq) = l₁ ++ l₂ := by
        rw [hl, eraseP_append_right _ fun x hx => by simpa using hnot x hx]
        simp
      have hsorted := H.sorted
      rw [hl] at hqueue hsorted
      have hne : ∀ x ∈ l₁ ++ l₂, x.seq ≠ item.seq := by
        have hnodup : ((l₁ ++ item :: l₂).map (·.seq)).Nodup := hsorted.imp ne_of_lt
        rw [(perm_middle.map _).nodup_iff, map_cons, nodup_cons] at hnodup
        exact fun x hx heq => hnodup.1 (mem_map.mpr ⟨x, hx, heq⟩)
      have hsub : (l₁ ++ l₂).Sublist (l₁ ++ item :: l₂) :=
        (sublist_cons_self _ _).append_left _
      have hemit := @Inv.emit δ s H (.packet item.seq item.payload) (l₁ ++ l₂) now hn (hl ▸ hsub)
        (fun x hx => lt_of_le_of_ne (hqueue x (hsub.mem hx)) (hne x hx).symm)
        (H.safe item (hl ▸ mem_append_right _ mem_cons_self)) (fun _ h => by cases h)
        (by rw [hl]; exact (@perm_middle _ item l₁ l₂).symm)
      rw [JitterBuffer.pull_packet hn hfind]
      refine ⟨?_, fun _ _ _ _ _ => length_append⟩
      simp only [isSome_some, if_true, toList_some, herase]
      exact hemit
    | none =>
      have hmissing : n ∉ s.buffer.queue.map (·.seq) := by
        intro hmem
        obtain ⟨item, hitem, hseq⟩ := mem_map.mp hmem
        exact find?_eq_none.mp hfind item hitem (decide_eq_true hseq)
      have hlater : ∀ item ∈ s.buffer.queue, n < item.seq := fun item hitem =>
        lt_of_le_of_ne (hqueue item hitem) fun heq => hmissing (heq ▸ mem_map_of_mem hitem)
      rw [JitterBuffer.pull_missing hn hfind]
      cases hhead : s.buffer.queue with
      | nil =>
        have hnone : s.gapSeen = none :=
          not_isSome_iff_eq_none.mp fun h => (H.later h).1 hhead
        have hwait := @Inv.wait δ s H n now none hn fun h => by cases h
        refine ⟨?_, fun _ g _ hg => by rw [hnone] at hg; cases hg⟩
        have hgap : s.buffer.gapSince = none := H.gap.trans hnone
        simpa [hhead, hnone, hgap] using hwait
      | cons first rest =>
        have hfirst : n < first.seq := hlater first (hhead ▸ mem_cons_self)
        have hsafe : n < 2 ^ 53 := hfirst.trans (H.safe first (hhead ▸ mem_cons_self))
        simp only [head?_cons, any_some, decide_eq_true hfirst, if_true, H.gap]
        split
        · have hemit := @Inv.emit δ s H (.loss n) s.buffer.queue now hn
            (List.Sublist.refl _) hlater hsafe
            (fun m hm => by cases hm; exact H.unknown hmissing hnext) (.refl _)
          refine ⟨?_, fun _ _ _ _ _ => length_append⟩
          simpa [hhead, Slot.seq] using hemit
        · rename_i hwaits
          have hwait := @Inv.wait δ s H n now (some (s.gapSeen.getD now)) hn
            fun _ h => by rw [hhead] at h; cases h
          refine ⟨?_, fun now' g heq hg hlong => ?_⟩
          · cases hgap : s.gapSeen <;> simpa [hhead, hgap] using hwait
          · cases heq
            rw [hg, getD_some] at hwaits
            exact absurd hlong hwaits

theorem Inv.step (hroom : s.hasRoom e = true) (H : s.Inv) (hstep : s.step e = some s') :
    s'.Inv ∧ Punctual s e s' := by
  cases e with
  | push => exact ⟨H.push hroom hstep, fun _ _ h => by cases h⟩
  | pull => exact H.pull hstep

theorem Inv.sound (H : s.Inv) : s.Sound := by
  refine ⟨?_, H.losses, H.once, H.distinct, H.few⟩
  cases hn : s.buffer.nextSeq with
  | none => exact ⟨0, by rw [H.fresh hn]; rfl⟩
  | some n =>
    obtain ⟨-, first, hseqs, -⟩ := H.next n hn
    exact ⟨first, hseqs⟩

/-- A buffer into which no packet is put that finds it full -/
theorem sound_of_hasRoom {packetMs waitMs maxQueued : Option Int}
    (h : Run step (fun s e => s.hasRoom e = true)
      { buffer := createJitterBuffer δ packetMs waitMs maxQueued } es s) :
    s.Sound ∧ EveryStep step Punctual
      { buffer := createJitterBuffer δ packetMs waitMs maxQueued } es := by
  have hcreated : Inv { buffer := createJitterBuffer δ packetMs waitMs maxQueued } := by
    constructor <;> simp [createJitterBuffer]
  refine ⟨(h.invariant (fun hroom H hstep => (H.step hroom hstep).1) hcreated).sound, ?_⟩
  exact h.everyStep (fun hroom H hstep => H.step hroom hstep) hcreated

/-- One packet is lost, and comes when its slot is over. -/
def lateEvents : List (PlayoutEvent String) :=
  [.push 0 "a", .push 2 "c", .pull 1000, .pull 1000, .pull 1060, .pull 1060, .push 1 "b"]

theorem sound_of_hasRoom_loss :
    ∃ s, exec step { buffer := createJitterBuffer String none none none } lateEvents = some s ∧
      s.emitted.map Slot.seq = [0, 1, 2] ∧ s.Sound := by
  obtain ⟨s, hs, hend⟩ : ∃ s,
      exec step { buffer := createJitterBuffer String none none none } lateEvents = some s ∧
        s.emitted.map Slot.seq = [0, 1, 2] := ⟨_, rfl, by decide +kernel⟩
  exact ⟨s, hs, hend, (sound_of_hasRoom (.of_allowed (by decide +kernel) hs)).1⟩

/-- Two packets fill the queue, and the third, which is taken, goes at once. -/
theorem overflow_drops : ¬ ∀ packetMs waitMs maxQueued (es : List (PlayoutEvent String)) s,
    FreeRun step { buffer := createJitterBuffer String packetMs waitMs maxQueued } es s → s.Sound := by
  intro h
  have hsound := h none none (some 2) [.push 0 "a", .push 1 "b", .push 2 "c"] _ (.of_exec rfl)
  have hlength := hsound.once.length_eq
  revert hlength
  decide +kernel

end Playout
end Bluetalk.Calls

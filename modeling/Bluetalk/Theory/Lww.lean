import Bluetalk.Theory.Run
import Mathlib.Data.Set.Insert

/-!
# Last-writer-wins registers behind a server

A register that replicas write on their own, push to a server and pull from it. The server keeps the
last value that was pushed, whatever its time; a replica takes a value that another replica pushed
unless it has a newer one, and passes over its own. Pushes and pulls come in any order.

As long as no replica goes back in time while a write of its own waits, and no push takes an older
value to a server that has a newer one (`Register.Allowed`), the replicas converge: once nothing
waits and every replica has seen the value of the server, all hold a value with the highest time
(`Register.Inv.converged`).
-/

open Option

namespace Bluetalk

variable {ι τ ν : Type*} [DecidableEq ι] [LinearOrder τ]

/-- A value and the time it was written at. -/
structure Stamped (τ ν : Type*) where
  ts : τ
  val : ν

structure Replica (τ ν : Type*) where
  val : ν
  /-- the time of the value last pushed or taken over -/
  applied : Option τ
  /-- the time of a write that waits to be pushed -/
  pending : Option τ

structure Register (ι τ ν : Type*) where
  /-- the value last pushed, and the replica that pushed it -/
  server : Option (ι × Stamped τ ν)
  replica : ι → Replica τ ν
  /-- the replicas that have seen the value of the server -/
  seen : Set ι
  /-- every value ever written -/
  writes : Set (Stamped τ ν)

inductive RegisterAction (ι τ ν : Type*)
  | write (i : ι) (w : Stamped τ ν)
  | push (i : ι)
  | pull (i : ι)

namespace Replica

def write (r : Replica τ ν) (w : Stamped τ ν) : Replica τ ν :=
  { r with val := w.val, pending := some w.ts }

/-- The write that waits is pushed. -/
def sent (r : Replica τ ν) : Replica τ ν := { r with applied := r.pending, pending := none }

/-- The value of another replica: a write that waits is dropped for one that is as new. -/
def receive (r : Replica τ ν) (w : Stamped τ ν) : Replica τ ν :=
  let pending := r.pending.filter fun t => w.ts < t
  if pending = none ∧ ∀ t ∈ r.applied, t ≤ w.ts then ⟨w.val, some w.ts, none⟩
  else { r with pending }

variable {r : Replica τ ν} {w : Stamped τ ν} {t : τ}

theorem receive_of_le (hp : ∀ t ∈ r.pending, t ≤ w.ts) (ha : ∀ t ∈ r.applied, t ≤ w.ts) :
    r.receive w = ⟨w.val, some w.ts, none⟩ := by
  have hnone : (r.pending.filter fun t => w.ts < t) = none :=
    filter_eq_none_iff.mpr fun t ht => by simpa using hp t ht
  simp only [receive, hnone, true_and]
  exact if_pos ha

theorem receive_of_lt (hp : t ∈ r.pending) (ht : w.ts < t) : r.receive w = r := by
  have hsome : (r.pending.filter fun t => w.ts < t) = r.pending := by
    rw [mem_def.mp hp, filter_some, if_pos (by simpa using ht)]
  have hne : r.pending ≠ none := by simp [mem_def.mp hp]
  simp only [receive, hsome, hne, false_and, if_false]

end Replica

namespace Register

/-- A register that nobody has written. -/
def initial (v : ν) : Register ι τ ν := ⟨none, fun _ => ⟨v, none, none⟩, Set.univ, ∅⟩

def setReplica (s : Register ι τ ν) (i : ι) (r : Replica τ ν) : Register ι τ ν :=
  { s with replica := Function.update s.replica i r }

/-- Replica `i` pushes the value it wrote at `t`. -/
def push (s : Register ι τ ν) (i : ι) (t : τ) : Register ι τ ν :=
  { s.setReplica i (s.replica i).sent with server := some (i, ⟨t, (s.replica i).val⟩), seen := ∅ }

open scoped Classical in
/-- A replica that has seen the value of the server, or pushed it, keeps its own. -/
noncomputable def pull (s : Register ι τ ν) (i : ι) : Register ι τ ν :=
  match s.server with
  | none => { s with seen := insert i s.seen }
  | some (j, w) =>
    if i ∈ s.seen ∨ j = i then { s with seen := insert i s.seen }
    else { s.setReplica i ((s.replica i).receive w) with seen := insert i s.seen }

variable {s : Register ι τ ν}

theorem pull_of_seen {i : ι} (h : ∀ x ∈ s.server, i ∈ s.seen ∨ x.1 = i) :
    s.pull i = { s with seen := insert i s.seen } := by
  simp only [pull]
  split
  · rfl
  · next j w hs => exact if_pos (h _ hs)

theorem pull_of_unseen {i j : ι} {w : Stamped τ ν} (hs : s.server = some (j, w))
    (hi : i ∉ s.seen) (hj : j ≠ i) :
    s.pull i = { s.setReplica i ((s.replica i).receive w) with seen := insert i s.seen } := by
  simp only [pull, hs]
  exact if_neg (not_or.mpr ⟨hi, hj⟩)

noncomputable def step (s : Register ι τ ν) : RegisterAction ι τ ν → Option (Register ι τ ν)
  | .write i w => some { s.setReplica i ((s.replica i).write w) with writes := insert w s.writes }
  | .push i => (s.replica i).pending.map (s.push i)
  | .pull i => some (s.pull i)

/-- A write is not older than the one it replaces; a push does not take an older value to the
server. -/
def Allowed (s : Register ι τ ν) : RegisterAction ι τ ν → Prop
  | .write i w => ∀ t ∈ (s.replica i).pending, t ≤ w.ts
  | .push i => ∀ x ∈ s.server, ∀ t ∈ (s.replica i).pending, x.2.ts ≤ t
  | .pull _ => True

/-- What links the replicas, the server and the writes; `init` is the value before any write. -/
structure Inv (init : ν) (s : Register ι τ ν) : Prop where
  server : ∀ x ∈ s.server, x.2 ∈ s.writes
  pending : ∀ i, ∀ t ∈ (s.replica i).pending, ⟨t, (s.replica i).val⟩ ∈ s.writes
  applied : ∀ i, ∀ t ∈ (s.replica i).applied, ∃ x ∈ s.server, t ≤ x.2.ts
  untouched : s.server = none → ∀ i, (s.replica i).pending = none → (s.replica i).val = init
  seen : ∀ x ∈ s.server, ∀ i, i ∈ s.seen ∨ x.1 = i → (s.replica i).pending = none →
    (s.replica i).val = x.2.val
  covered : ∀ w ∈ s.writes, (∃ x ∈ s.server, w.ts ≤ x.2.ts) ∨
    ∃ i, ∃ t ∈ (s.replica i).pending, w.ts ≤ t

namespace Inv

variable {init : ν} {s s' : Register ι τ ν} {i k : ι} {w : Stamped τ ν}

omit [DecidableEq ι] in
theorem initial : (Register.initial init : Register ι τ ν).Inv init where
  server _ h := by cases h
  pending _ _ h := by cases h
  applied _ _ h := by cases h
  untouched _ _ _ := rfl
  seen _ h := by cases h
  covered _ h := absurd h (Set.notMem_empty _)

omit [LinearOrder τ] in
/-- The replica that acts, and any other. -/
theorem forall_update {P : ι → Replica τ ν → Prop} {r : Replica τ ν} (hi : P i r)
    (hk : ∀ k, k ≠ i → P k (s.replica k)) (k : ι) : P k ((s.setReplica i r).replica k) := by
  simp only [setReplica, Function.update_apply]
  split
  · next h => exact h ▸ hi
  · next h => exact hk k h

theorem write (H : s.Inv init) (hle : ∀ t ∈ (s.replica i).pending, t ≤ w.ts) :
    ({ s.setReplica i ((s.replica i).write w) with writes := insert w s.writes } :
      Register ι τ ν).Inv init where
  server x hx := .inr (H.server x hx)
  pending := forall_update (P := fun _ r => ∀ t ∈ r.pending, (⟨t, r.val⟩ : Stamped τ ν) ∈ _)
    (by rintro t ⟨⟩; exact .inl rfl) fun k _ t ht => .inr (H.pending k t ht)
  applied := forall_update (P := fun _ r => ∀ t ∈ r.applied, ∃ x ∈ s.server, t ≤ x.2.ts)
    (H.applied i) fun k _ => H.applied k
  untouched hs := forall_update (P := fun _ r => r.pending = none → r.val = init) nofun
    fun k _ => H.untouched hs k
  seen x hx := forall_update
    (P := fun k r => k ∈ s.seen ∨ x.1 = k → r.pending = none → r.val = x.2.val)
    (fun _ => nofun) fun k _ => H.seen x hx k
  covered := by
    have hself : w.ts ∈ ((s.replica i).write w).pending := rfl
    rintro v (rfl | hv)
    · exact .inr ⟨i, _, by simpa [setReplica] using hself, le_refl _⟩
    refine (H.covered v hv).imp_right ?_
    -- the write that waited is replaced by a newer one
    rintro ⟨k, t, ht, hle'⟩
    by_cases hk : k = i
    · subst hk
      exact ⟨k, _, by simpa [setReplica] using hself, hle'.trans (hle t ht)⟩
    · exact ⟨k, t, by simpa [setReplica, hk] using ht, hle'⟩

theorem push {t : τ} (H : s.Inv init) (ht : t ∈ (s.replica i).pending)
    (hle : ∀ x ∈ s.server, x.2.ts ≤ t) : (s.push i t).Inv init where
  server := by rintro x ⟨⟩; exact H.pending i t ht
  pending := forall_update (P := fun _ r => ∀ t ∈ r.pending, (⟨t, r.val⟩ : Stamped τ ν) ∈ _)
    nofun fun k _ => H.pending k
  applied := by
    refine forall_update (P := fun _ r => ∀ u ∈ r.applied, ∃ x ∈ (s.push i t).server, u ≤ x.2.ts)
      (fun u hu => ⟨_, rfl, (mem_unique hu ht).le⟩) fun k _ u hu => ?_
    obtain ⟨x, hx, hux⟩ := H.applied k u hu
    exact ⟨_, rfl, hux.trans (hle x hx)⟩
  untouched := nofun
  seen := by
    rintro x ⟨⟩
    refine forall_update (P := fun k r => k ∈ (∅ : Set ι) ∨ i = k → r.pending = none → r.val = _)
      (fun _ _ => rfl) fun k hk => ?_
    rintro (hk' | rfl)
    · exact absurd hk' (Set.notMem_empty k)
    · exact absurd rfl hk
  covered v hv := by
    rcases H.covered v hv with ⟨x, hx, hvx⟩ | ⟨k, u, hu, hvu⟩
    · exact .inl ⟨_, rfl, hvx.trans (hle x hx)⟩
    by_cases hk : k = i
    · subst hk
      exact .inl ⟨_, rfl, hvu.trans (mem_unique hu ht).le⟩
    · exact .inr ⟨k, u, by simpa [Register.push, setReplica, hk] using hu, hvu⟩

/-- A replica that takes over the value of the server has it, unless a newer write waits. -/
theorem receive {j : ι} (H : s.Inv init) (hs : s.server = some (j, w)) :
    ({ s.setReplica i ((s.replica i).receive w) with seen := insert i s.seen } :
      Register ι τ ν).Inv init := by
  have happlied : ∀ t ∈ (s.replica i).applied, t ≤ w.ts := by
    intro t ht
    obtain ⟨x, hx, htx⟩ := H.applied i t ht
    obtain rfl := some.inj (hs.symm.trans hx)
    exact htx
  by_cases hp : ∀ t ∈ (s.replica i).pending, t ≤ w.ts
  · rw [Replica.receive_of_le hp happlied]
    refine ⟨H.server, ?_, ?_, fun h => absurd (hs.symm.trans h) nofun, ?_, fun v hv => ?_⟩
    · exact forall_update (P := fun _ r => ∀ t ∈ r.pending, (⟨t, r.val⟩ : Stamped τ ν) ∈ _) nofun
        fun k _ => H.pending k
    · refine forall_update (P := fun _ r => ∀ t ∈ r.applied, ∃ x ∈ s.server, t ≤ x.2.ts) ?_
        fun k _ => H.applied k
      rintro t ⟨⟩
      exact ⟨_, hs, le_refl _⟩
    · intro x hx
      obtain rfl := some.inj (hs.symm.trans hx)
      refine forall_update
        (P := fun k r => k ∈ insert i s.seen ∨ j = k → r.pending = none → r.val = w.val)
        (fun _ _ => rfl) fun k hk hor => H.seen _ hs k (hor.imp_left fun h => h.resolve_left hk)
    · rcases H.covered v hv with h | ⟨k, u, hu, hvu⟩
      · exact .inl h
      · by_cases hk : k = i
        · subst hk
          exact .inl ⟨_, hs, hvu.trans (hp u hu)⟩
        · exact .inr ⟨k, u, by simpa [setReplica, hk] using hu, hvu⟩
  · -- a newer write waits: only the value of the server has been seen
    simp only [not_forall, not_le, exists_prop] at hp
    obtain ⟨t, ht, hlt⟩ := hp
    have hself : s.setReplica i (s.replica i) = s := by simp [setReplica]
    rw [Replica.receive_of_lt ht hlt, hself]
    refine ⟨H.server, H.pending, H.applied, H.untouched, fun x hx k hor hk => ?_, H.covered⟩
    refine H.seen x hx k (hor.imp_left ?_) hk
    rintro (rfl | h)
    · rw [hk] at ht; cases ht
    · exact h

theorem pull (H : s.Inv init) : (s.pull i).Inv init := by
  by_cases h : ∀ x ∈ s.server, i ∈ s.seen ∨ x.1 = i
  · rw [pull_of_seen h]
    refine ⟨H.server, H.pending, H.applied, H.untouched, fun x hx k => ?_, H.covered⟩
    rintro ((rfl | hk) | hk)
    · exact H.seen x hx k (h x hx)
    · exact H.seen x hx k (.inl hk)
    · exact H.seen x hx k (.inr hk)
  simp only [not_forall, not_or] at h
  obtain ⟨⟨j, w⟩, hs, hi, hj⟩ := h
  rw [pull_of_unseen hs hi hj]
  exact H.receive hs

/-- An allowed step keeps the invariant. -/
theorem step {a : RegisterAction ι τ ν} (H : s.Inv init) (hok : Allowed s a)
    (h : s.step a = some s') : s'.Inv init := by
  cases a with
  | write i w => cases h; exact H.write hok
  | push i =>
    obtain ⟨t, ht, rfl⟩ := map_eq_some_iff.mp h
    exact H.push ht fun x hx => hok x hx t ht
  | pull i => cases h; exact H.pull

omit [DecidableEq ι] in
/-- Once nothing waits and every replica has seen the value of the server, all hold a value with
the highest time. -/
theorem converged (H : s.Inv init) (hpending : ∀ i, (s.replica i).pending = none)
    (hseen : ∀ i, i ∈ s.seen) :
    (∃ w ∈ s.writes, (∀ w' ∈ s.writes, w'.ts ≤ w.ts) ∧ ∀ i, (s.replica i).val = w.val) ∨
      s.writes = ∅ ∧ ∀ i, (s.replica i).val = init := by
  have hcovered : ∀ w ∈ s.writes, ∃ x ∈ s.server, w.ts ≤ x.2.ts := by
    intro w hw
    refine (H.covered w hw).resolve_right ?_
    rintro ⟨i, t, ht, -⟩
    rw [hpending i] at ht
    cases ht
  cases hs : s.server with
  | none =>
    refine .inr ⟨Set.eq_empty_iff_forall_notMem.mpr fun w hw => ?_, fun i =>
      H.untouched hs i (hpending i)⟩
    obtain ⟨x, hx, -⟩ := hcovered w hw
    rw [hs] at hx
    cases hx
  | some x =>
    refine .inl ⟨x.2, H.server x hs, fun w hw => ?_, fun i =>
      H.seen x hs i (.inl (hseen i)) (hpending i)⟩
    obtain ⟨y, hy, hle⟩ := hcovered w hw
    rw [hs] at hy
    exact some.inj hy ▸ hle

end Inv
end Register
end Bluetalk

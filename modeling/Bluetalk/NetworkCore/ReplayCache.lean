import Mathlib.Data.List.Dedup
import Mathlib.Data.List.TakeWhile
import Bluetalk.Theory.Keyed
import Bluetalk.Theory.Page

/-!
# The replay cache

`ReplayCache` of `network-core/src/discovery.rs`: the keys of announcements and when they came, as
a map and in the order in which they were put there. What is older than the window is pruned, and
the oldest keys make room when the cache is full. As long as it is not, the cache knows what a log
of all keys knows for the length of the window.
-/

open List

namespace Bluetalk.NetworkCore

/-- The times are those of a clock that does not go back. -/
structure ReplayCache where
  entries : List (String × Nat) := []
  insertionOrder : List (String × Nat) := []
  window : Nat
  maximumEntries : Nat

namespace ReplayCache

def new (window maximumEntries : Nat) : ReplayCache :=
  { window := window, maximumEntries := maximumEntries }

/-- `if self.entries.get(&key) == Some(&inserted) { self.entries.remove(&key); }` -/
def forget (entries : List (String × Nat)) (old : String × Nat) : List (String × Nat) :=
  if entries.lookup old.1 = some old.2 then entries.filter fun e => e.1 ≠ old.1 else entries

def pruneLoop (window now : Nat) (entries : List (String × Nat)) :
    List (String × Nat) → List (String × Nat) × List (String × Nat)
  | [] => (entries, [])
  | old :: order =>
    if now - old.2 < window then (entries, old :: order)
    else pruneLoop window now (forget entries old) order

def prune (c : ReplayCache) (now : Nat) : ReplayCache :=
  let r := pruneLoop c.window now c.entries c.insertionOrder
  { c with entries := r.1, insertionOrder := r.2 }

/-- `while self.entries.len() >= self.maximum_entries` -/
def evictLoop (maximumEntries : Nat) (entries : List (String × Nat)) :
    List (String × Nat) → List (String × Nat) × List (String × Nat)
  | [] => (entries, [])
  | old :: order =>
    if maximumEntries ≤ entries.length then evictLoop maximumEntries (forget entries old) order
    else (entries, old :: order)

/-- `false` for a key that is still inside the window. -/
def recordIfFresh (c : ReplayCache) (key : String) (now : Nat) : ReplayCache × Bool :=
  let c := c.prune now
  if (c.entries.lookup key).isSome then (c, false)
  else
    let r := evictLoop c.maximumEntries c.entries c.insertionOrder
    ({ c with
        entries := put Prod.fst (key, now) r.1
        insertionOrder := r.2 ++ [(key, now)] }, true)

/-- The map and the order have the same keys, each once. -/
structure Agrees (c : ReplayCache) : Prop where
  entries : c.entries = c.insertionOrder
  nodup : (c.insertionOrder.map Prod.fst).Nodup

/-- What is not pruned. -/
def kept (c : ReplayCache) (now : Nat) : List (String × Nat) :=
  c.insertionOrder.dropWhile fun e => !decide (now - e.2 < c.window)

/-- What is left of `order` where there is to be room for one more. -/
def room (maximumEntries : Nat) (order : List (String × Nat)) : List (String × Nat) :=
  order.drop (order.length + 1 - maximumEntries)

variable {c : ReplayCache} {order log : List (String × Nat)} {old : String × Nat}
  {window now last maximumEntries : Nat} {key : String}

theorem agrees_new : Agrees (new window maximumEntries) := ⟨rfl, nodup_nil⟩

theorem forget_head (h : ((old :: order).map Prod.fst).Nodup) : forget (old :: order) old = order := by
  rw [map_cons, nodup_cons] at h
  rw [forget, lookup_cons, beq_self_eq_true, if_pos rfl, filter_cons_of_neg (by simp)]
  refine filter_eq_self.mpr fun e he => decide_eq_true fun heq => h.1 ?_
  exact mem_map.mpr ⟨e, he, heq⟩

theorem pruneLoop_eq (h : (order.map Prod.fst).Nodup) : pruneLoop window now order order =
    (order.dropWhile fun e => !decide (now - e.2 < window),
      order.dropWhile fun e => !decide (now - e.2 < window)) := by
  induction order with
  | nil => rfl
  | cons old order ih =>
    rw [pruneLoop, dropWhile_cons]
    by_cases hnew : now - old.2 < window
    · rw [if_pos hnew, if_neg (by simp [hnew])]
    · rw [if_neg hnew, if_pos (by simp [hnew]), forget_head h]
      exact ih (nodup_cons.mp h).2

theorem evictLoop_eq (h : (order.map Prod.fst).Nodup) :
    evictLoop maximumEntries order order = (room maximumEntries order, room maximumEntries order) := by
  induction order with
  | nil => simp [evictLoop, room]
  | cons old order ih =>
    rw [evictLoop]
    split
    next hfull =>
      have hdrop : room maximumEntries (old :: order) = room maximumEntries order := by
        have hsucc : (old :: order).length + 1 - maximumEntries =
            (order.length + 1 - maximumEntries) + 1 := by
          rw [length_cons] at hfull ⊢
          omega
        rw [room, room, hsucc, drop_succ_cons]
      rw [hdrop, forget_head h]
      exact ih (nodup_cons.mp h).2
    next hroom =>
    have hnone : (old :: order).length + 1 - maximumEntries = 0 := by omega
    rw [room, hnone, drop_zero]

theorem lookup_isSome : (order.lookup key).isSome = true ↔ key ∈ order.map Prod.fst := by
  induction order with
  | nil => simp
  | cons e order ih =>
    obtain ⟨k, t⟩ := e
    rw [lookup_cons, map_cons, mem_cons, ← ih]
    by_cases hk : key = k
    · simp [hk]
    · rw [beq_eq_false_iff_ne.mpr hk]
      simp [hk]

theorem recordIfFresh_eq (H : Agrees c) : c.recordIfFresh key now =
    if key ∈ (c.kept now).map Prod.fst then
      ({ c with entries := c.kept now, insertionOrder := c.kept now }, false)
    else
      ({ c with
          entries := room c.maximumEntries (c.kept now) ++ [(key, now)]
          insertionOrder := room c.maximumEntries (c.kept now) ++ [(key, now)] }, true) := by
  have hprune : c.prune now = { c with entries := c.kept now, insertionOrder := c.kept now } := by
    rw [prune, H.entries, pruneLoop_eq H.nodup]
    rfl
  have hnodup : ((c.kept now).map Prod.fst).Nodup :=
    H.nodup.sublist ((dropWhile_sublist _).map _)
  rw [recordIfFresh, hprune]
  dsimp only
  rw [evictLoop_eq hnodup]
  by_cases hknown : key ∈ (c.kept now).map Prod.fst
  · rw [if_pos hknown, if_pos (lookup_isSome.mpr hknown)]
  · have hnew : key ∉ (room c.maximumEntries (c.kept now)).map Prod.fst := fun hmem =>
      hknown (((drop_sublist _ _).map Prod.fst).subset hmem)
    rw [if_neg hknown, if_neg fun h => hknown (lookup_isSome.mp h), put_of_not_mem hnew]

theorem Agrees.record (H : Agrees c) : Agrees (c.recordIfFresh key now).1 := by
  have hnodup : ((c.kept now).map Prod.fst).Nodup :=
    H.nodup.sublist ((dropWhile_sublist _).map _)
  rw [recordIfFresh_eq H]
  split
  · exact ⟨rfl, hnodup⟩
  next hnew =>
  refine ⟨rfl, ?_⟩
  rw [map_append, map_singleton, ← concat_eq_append, nodup_concat]
  have hsub := (drop_sublist ((c.kept now).length + 1 - c.maximumEntries) (c.kept now)).map
    Prod.fst
  exact ⟨fun hmem => hnew (hsub.subset hmem), hnodup.sublist hsub⟩

theorem recordIfFresh_maximumEntries (H : Agrees c) :
    (c.recordIfFresh key now).1.maximumEntries = c.maximumEntries := by
  rw [recordIfFresh_eq H]
  split <;> rfl

theorem recordIfFresh_window (H : Agrees c) : (c.recordIfFresh key now).1.window = c.window := by
  rw [recordIfFresh_eq H]
  split <;> rfl

/-- The cache never has more keys than it may. -/
def Bounded (c : ReplayCache) : Prop := c.entries.length ≤ c.maximumEntries

theorem Bounded.record (hbound : Bounded c) (H : Agrees c) (hmax : 0 < c.maximumEntries) :
    Bounded (c.recordIfFresh key now).1 := by
  have hkept : (c.kept now).length ≤ c.insertionOrder.length := (dropWhile_sublist _).length_le
  rw [Bounded, H.entries] at hbound
  rw [Bounded, recordIfFresh_eq H]
  split
  · exact Nat.le_trans hkept hbound
  · simp only [room, length_append, length_drop, length_singleton]
    omega

/-! ### What the cache knows -/

/-- The cache has of a log what the window leaves. -/
structure Follows (c : ReplayCache) (log : List (String × Nat)) (last : Nat) : Prop where
  agrees : Agrees c
  ordered : Window.Ordered log
  before : ∀ e ∈ log, e.2 ≤ last
  gone : ∃ old, log = old ++ c.insertionOrder ∧ ∀ e ∈ old, c.window ≤ last - e.2

theorem Follows.gone_kept (H : Follows c log last) (hnow : last ≤ now) :
    ∃ old, log = old ++ c.kept now ∧ ∀ e ∈ old, c.window ≤ now - e.2 := by
  obtain ⟨old, hlog, hold⟩ := H.gone
  let p : String × Nat → Bool := fun e => !decide (now - e.2 < c.window)
  refine ⟨old ++ c.insertionOrder.takeWhile p, ?_, fun e he => ?_⟩
  · rw [append_assoc, kept, takeWhile_append_dropWhile, hlog]
  rcases mem_append.mp he with he | he
  · exact Nat.le_trans (hold e he) (Nat.sub_le_sub_right hnow _)
  · have hp := mem_takeWhile_imp he
    simpa [p] using hp

theorem Follows.mem_kept (H : Follows c log last) {e : String × Nat} (he : e ∈ c.kept now) :
    now - e.2 < c.window := by
  obtain ⟨old, hlog, -⟩ := H.gone
  have hord : Window.Ordered c.insertionOrder := by
    refine List.Pairwise.sublist ?_ H.ordered
    rw [hlog]
    exact sublist_append_right _ _
  have hkept : Window.Ordered (c.kept now) := hord.sublist (dropWhile_sublist _)
  match hfirst : c.kept now with
  | [] =>
    rw [hfirst] at he
    cases he
  | first :: rest =>
    have hin : now - first.2 < c.window := by
      have hnot := head?_dropWhile_not (fun e : String × Nat => !decide (now - e.2 < c.window))
        c.insertionOrder
      rw [← kept, hfirst] at hnot
      simpa using hnot
    rw [hfirst] at he hkept
    rcases mem_cons.mp he with rfl | he
    · exact hin
    · have hle := (pairwise_cons.mp hkept).1 e he
      omega

theorem Follows.known_iff (H : Follows c log last) (hnow : last ≤ now) :
    Window.Known c.window log (key, now) ↔ key ∈ (c.kept now).map Prod.fst := by
  obtain ⟨old, hlog, hold⟩ := H.gone_kept hnow
  constructor
  · rintro ⟨e, he, rfl, hlt⟩
    rw [hlog] at he
    rcases mem_append.mp he with he | he
    · exact absurd hlt (Nat.not_lt.mpr (hold e he))
    · exact mem_map_of_mem he
  intro hmem
  obtain ⟨e, he, rfl⟩ := mem_map.mp hmem
  refine ⟨e, ?_, rfl, H.mem_kept he⟩
  rw [hlog]
  exact mem_append_right _ he

theorem Follows.mono (H : Follows c log last) (hnow : last ≤ now) : Follows c log now := by
  obtain ⟨old, hlog, hold⟩ := H.gone
  refine ⟨H.agrees, H.ordered, fun e he => Nat.le_trans (H.before e he) hnow, old, hlog, ?_⟩
  exact fun e he => Nat.le_trans (hold e he) (Nat.sub_le_sub_right hnow _)

theorem Follows.length_kept (H : Follows c log last) {seen : List String} (hnow : last ≤ now)
    (hseen : ∀ e ∈ log, e.1 ∈ seen) : (c.kept now).length ≤ seen.length := by
  obtain ⟨old, hlog, -⟩ := H.gone_kept hnow
  have hnodup : ((c.kept now).map Prod.fst).Nodup :=
    H.agrees.nodup.sublist ((dropWhile_sublist _).map _)
  have hsubset : (c.kept now).map Prod.fst ⊆ seen := by
    intro key hkey
    obtain ⟨e, he, rfl⟩ := mem_map.mp hkey
    exact hseen e (by rw [hlog]; exact mem_append_right _ he)
  rw [← length_map (f := Prod.fst)]
  exact (subperm_of_subset hnodup hsubset).length_le

theorem Follows.record (key : String) (H : Follows c log last) (hnow : last ≤ now)
    (hroom : (c.kept now).length < c.maximumEntries) :
    Follows (c.recordIfFresh key now).1 (Window.take c.window log (key, now)) now ∧
      ((c.recordIfFresh key now).2 = true ↔ ¬ Window.Known c.window log (key, now)) := by
  obtain ⟨old, hlog, hold⟩ := H.gone_kept hnow
  have hbefore : ∀ e ∈ log, e.2 ≤ now := fun e he =>
    Nat.le_trans (H.before e he) hnow
  have hagrees : Agrees (c.recordIfFresh key now).1 := H.agrees.record
  have hrecord := @recordIfFresh_eq c now key H.agrees
  by_cases hknown : key ∈ (c.kept now).map Prod.fst
  · have hlogged := (H.known_iff hnow).mpr hknown
    rw [if_pos hknown] at hrecord
    rw [Window.take_of_known hlogged]
    refine ⟨⟨hagrees, H.ordered, hbefore, old, ?_, ?_⟩, ?_⟩
    · rw [hrecord]
      exact hlog
    · rw [hrecord]
      exact hold
    · rw [hrecord]
      exact iff_of_false Bool.false_ne_true (not_not.mpr hlogged)
  · have hnew : ¬ Window.Known c.window log (key, now) := fun h => hknown ((H.known_iff hnow).mp h)
    have hall : room c.maximumEntries (c.kept now) = c.kept now := by
      have hzero : (c.kept now).length + 1 - c.maximumEntries = 0 := by omega
      rw [room, hzero, drop_zero]
    rw [if_neg hknown, hall] at hrecord
    rw [Window.take_of_not_known hnew]
    refine ⟨⟨hagrees, ?_, ?_, old, ?_, ?_⟩, ?_⟩
    · exact Window.pairwise_concat.mpr ⟨H.ordered, hbefore⟩
    · rw [forall_mem_append, forall_mem_singleton]
      exact ⟨hbefore, Nat.le_refl _⟩
    · rw [hrecord, ← append_assoc, ← hlog]
    · rw [hrecord]
      exact hold
    · rw [hrecord]
      exact iff_of_true rfl hnew

end ReplayCache
end Bluetalk.NetworkCore

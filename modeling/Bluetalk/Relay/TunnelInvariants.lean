import Bluetalk.Relay.Tunnel
import Bluetalk.Theory.Pairing
import Bluetalk.Theory.Run

/-!
# The invariant of the tunnel table

The table is a pairing of the ends of tunnels: `Tunnels.slot` is what a connection has under an
id, and every operation of `tunnel.rs` either joins two free ends, undoes pairs, or turns a
pending pair into an established one. `Tunnels.Wf` says this of a table, with the limits.
-/

open List Option

namespace Bluetalk.Relay

namespace ConnTunnels

variable {c : ConnTunnels} {k k' : Kind} {m : AList fun _ : UInt32 => Endpoint} {id : UInt32}

theorem get_set : (c.set m k).get k' = if k' = k then m else c.get k' := by
  cases k <;> cases k' <;> rfl

theorem used_iff : c.used id ↔ ∃ k, (c.get k).lookup id ≠ none := by
  simp only [used, Bool.or_eq_true, decide_eq_true_eq, ← AList.lookup_isSome, isSome_iff_ne_none]
  constructor
  · rintro ((h | h) | h)
    exacts [⟨.established, h⟩, ⟨.pendingOut, h⟩, ⟨.pendingIn, h⟩]
  · rintro ⟨_ | _ | _, h⟩
    exacts [.inl (.inl h), .inl (.inr h), .inr h]

theorem allocFrom_eq_some {n : Nat} {start : UInt32} (h : c.allocFrom n start = some id) :
    id ≠ 0 ∧ ¬ c.used id := by
  induction n generalizing start with
  | zero => cases h
  | succ n ih =>
    rw [allocFrom] at h
    split at h
    next hfree => cases h; simpa using hfree
    next => exact ih h

theorem allocId_eq_some {c' : ConnTunnels} (h : c.allocId = some (id, c')) :
    id ≠ 0 ∧ ¬ c.used id ∧ c'.get = c.get := by
  rw [allocId] at h
  split at h
  · cases h
  next =>
  obtain ⟨id', hid, h⟩ := map_eq_some_iff.mp h
  cases h
  refine ⟨(allocFrom_eq_some hid).1, (allocFrom_eq_some hid).2, ?_⟩
  funext k
  cases k <;> rfl

end ConnTunnels

namespace Tunnels

variable {t : Tunnels} {k k' : Kind} {gen gen' a b : Nat} {id id' x y : UInt32} {e e' : Endpoint}
  {c : ConnTunnels} {m : AList fun _ : UInt32 => Endpoint}

theorem conn_setConn :
    (t.setConn gen c).conn gen' = if gen' = gen then c else t.conn gen' := by
  simp only [conn, setConn]
  split
  next h => rw [h, AList.lookup_insert]; rfl
  next h => rw [AList.lookup_insert_ne h]

theorem entry_setConn : (t.setConn gen c).entry k gen' id =
    if gen' = gen then (c.get k).lookup id else t.entry k gen' id := by
  simp only [entry, conn_setConn]
  split <;> rfl

theorem entry_set : (t.setConn gen ((t.conn gen).set m k)).entry k' gen' id =
    if gen' = gen ∧ k' = k then m.lookup id else t.entry k' gen' id := by
  simp only [entry_setConn, ConnTunnels.get_set]
  by_cases hg : gen' = gen
  · by_cases hk : k' = k
    · simp [hg, hk]
    · simp [hg, hk, entry]
  · simp [hg]

theorem entry_insert : (t.insert k gen id e).entry k' gen' id' =
    if k' = k ∧ gen' = gen ∧ id' = id then some e else t.entry k' gen' id' := by
  simp only [insert, entry_set]
  by_cases h : gen' = gen ∧ k' = k
  · obtain ⟨rfl, rfl⟩ := h
    by_cases hid : id' = id
    · subst hid
      simp [AList.lookup_insert]
    · simp [hid, AList.lookup_insert_ne hid, entry]
  · simp only [if_neg h]
    rw [if_neg fun h' => h ⟨h'.2.1, h'.1⟩]

theorem entry_erase : (t.erase k gen id).entry k' gen' id' =
    if k' = k ∧ gen' = gen ∧ id' = id then none else t.entry k' gen' id' := by
  rw [erase]
  split
  next hc =>
    -- a connection without maps has nothing under any id
    split
    next h =>
      obtain ⟨rfl, rfl, rfl⟩ := h
      cases k' <;> simp [entry, conn, hc, ConnTunnels.get]
    next => rfl
  next c hc =>
  have hconn : c = t.conn gen := by simp [conn, hc]
  rw [hconn, entry_set]
  by_cases h : gen' = gen ∧ k' = k
  · obtain ⟨rfl, rfl⟩ := h
    by_cases hid : id' = id
    · subst hid
      simp [AList.lookup_erase]
    · simp [hid, AList.lookup_erase_ne hid, entry]
  · simp only [if_neg h]
    rw [if_neg fun h' => h ⟨h'.2.1, h'.1⟩]

/-! ## How many -/

def count (t : Tunnels) (k : Kind) (gen : Nat) : Nat := (t.conn gen).count k

def total (t : Tunnels) (gen : Nat) : Nat := (t.conn gen).total

theorem total_eq : t.total gen =
    t.count .established gen + t.count .pendingOut gen + t.count .pendingIn gen := rfl

theorem count_set : (t.setConn gen ((t.conn gen).set m k)).count k' gen' =
    if gen' = gen ∧ k' = k then m.keys.length else t.count k' gen' := by
  simp only [count, conn_setConn, ConnTunnels.count]
  by_cases hg : gen' = gen
  · by_cases hk : k' = k
    · simp [hg, hk, ConnTunnels.get_set]
    · simp [hg, hk, ConnTunnels.get_set]
  · simp [hg]

theorem count_insert (h : t.entry k gen id = none) :
    (t.insert k gen id e).count k' gen' =
      t.count k' gen' + if gen' = gen ∧ k' = k then 1 else 0 := by
  rw [insert, count_set]
  split
  next h' =>
    obtain ⟨rfl, rfl⟩ := h'
    have hmem : id ∉ ((t.conn gen').get k').keys := AList.lookup_eq_none.mp h
    rw [AList.keys_insert, erase_of_not_mem hmem, length_cons]
    rfl
  next => rfl

theorem count_erase (h : t.entry k gen id = some e) (k' : Kind) (gen' : Nat) :
    (t.erase k gen id).count k' gen' + (if gen' = gen ∧ k' = k then 1 else 0) =
      t.count k' gen' := by
  rw [erase]
  split
  next hc => cases k <;> simp [entry, conn, hc, ConnTunnels.get] at h
  next c hc =>
  have hconn : c = t.conn gen := by simp [conn, hc]
  rw [hconn, count_set]
  split
  next h' =>
    obtain ⟨rfl, rfl⟩ := h'
    have hmem : id ∈ ((t.conn gen').get k').keys :=
      AList.lookup_isSome.mp (isSome_of_eq_some h)
    have := length_pos_of_mem hmem
    rw [AList.keys_erase, length_erase_of_mem hmem]
    simp only [count, ConnTunnels.count]
    omega
  next => rfl

theorem count_erase_le : (t.erase k gen id).count k' gen' ≤ t.count k' gen' := by
  rw [erase]
  split
  · exact le_rfl
  next c hc =>
  have hconn : c = t.conn gen := by simp [conn, hc]
  rw [hconn, count_set]
  split
  next h' =>
    obtain ⟨rfl, rfl⟩ := h'
    rw [AList.keys_erase]
    exact length_erase_le
  next => exact le_rfl

/-! ## The pairs of a table -/

/-- What a connection has under an id. -/
def slot (t : Tunnels) (a : Endpoint) : Option (Kind × Endpoint) :=
  [Kind.established, .pendingOut, .pendingIn].findSome? fun k =>
    (t.entry k a.remoteGen a.remoteId).map (k, ·)

/-- The table holds the pairs of `P`, each end in the map of its role. -/
def Joins (t : Tunnels) (P : Pairing Kind.mirror Endpoint) : Prop :=
  ∀ k a e, t.entry k a.remoteGen a.remoteId = some e ↔ P.slot a = some (k, e)

variable {P : Pairing Kind.mirror Endpoint}

theorem Joins.entry_eq_none (h : t.Joins P) : (∀ k, t.entry k a x = none) ↔ P.slot ⟨a, x⟩ = none := by
  constructor
  · intro hnone
    refine eq_none_iff_forall_not_mem.mpr fun p hp => ?_
    have := (h p.1 ⟨a, x⟩ p.2).mpr hp
    rw [hnone] at this
    cases this
  intro hP k
  refine eq_none_iff_forall_not_mem.mpr fun e he => ?_
  rw [(h k ⟨a, x⟩ e).mp he] at hP
  cases hP

theorem Joins.congr {t' : Tunnels} (h : t.Joins P) (he : ∀ k a x, t'.entry k a x = t.entry k a x) :
    t'.Joins P := fun k a e => by rw [he]; exact h k a e

theorem Joins.erase (h : t.Joins P) (ha : t.entry k a x = some e) :
    ((t.erase k a x).erase k.mirror e.remoteGen e.remoteId).Joins (P.unlink ⟨a, x⟩) := by
  have hP := (h k ⟨a, x⟩ e).mp ha
  intro k' c d
  rw [Pairing.slot_unlink hP, entry_erase, entry_erase]
  by_cases hc : c = ⟨a, x⟩ ∨ c = e
  · rw [if_pos hc]
    refine iff_of_false (fun H => ?_) nofun
    -- the other maps of these two ends hold nothing
    have hentry : t.entry k' c.remoteGen c.remoteId = some d := by
      split at H
      · cases H
      · split at H
        · cases H
        · exact H
    have hslot := (h k' c d).mp hentry
    rcases hc with rfl | rfl
    · rw [hP] at hslot
      cases hslot
      simp at H
    · rw [P.symm hP] at hslot
      cases hslot
      simp at H
  · rw [if_neg hc, ← h k' c d]
    obtain ⟨hca, hce⟩ := not_or.mp hc
    rw [if_neg fun H => hce (by cases c; cases e; simp_all),
      if_neg fun H => hca (by cases c; simp_all)]

theorem Joins.insert (h : t.Joins P) (ha : P.slot ⟨a, x⟩ = none) (hb : P.slot ⟨b, y⟩ = none)
    (hab : (⟨a, x⟩ : Endpoint) ≠ ⟨b, y⟩) :
    ((t.insert k a x ⟨b, y⟩).insert k.mirror b y ⟨a, x⟩).Joins
      (P.link Kind.mirror_mirror k ⟨a, x⟩ ⟨b, y⟩ ha hb hab) := by
  intro k' c d
  have ha' := fun k => h.entry_eq_none.mpr ha k
  have hb' := fun k => h.entry_eq_none.mpr hb k
  obtain ⟨c, z⟩ := c
  simp only [entry_insert, Pairing.link]
  by_cases hca : (⟨c, z⟩ : Endpoint) = ⟨a, x⟩
  · have hcb : ¬(c = b ∧ z = y) := fun H => hab (by rw [← hca, H.1, H.2])
    cases hca
    simp only [and_true, if_true, hcb, and_false, if_false, ha']
    by_cases hk : k' = k
    · simp [hk]
    · simp [hk, Ne.symm hk]
  by_cases hcb : (⟨c, z⟩ : Endpoint) = ⟨b, y⟩
  · cases hcb
    have hca' : ¬(b = a ∧ y = x) := fun H => hab (by rw [H.1, H.2])
    simp only [and_true, hca, if_false, if_true, hca', and_false, hb']
    by_cases hk : k' = k.mirror
    · simp [hk]
    · simp [hk, Ne.symm hk]
  have hca' : ¬(c = a ∧ z = x) := fun H => hca (by rw [H.1, H.2])
  have hcb' : ¬(c = b ∧ z = y) := fun H => hcb (by rw [H.1, H.2])
  simp only [hca, hcb, hca', hcb', and_false, if_false]
  exact h k' ⟨c, z⟩ d

/-! ## Dropping a connection -/

theorem entry_dropped : (⟨t.byConn.erase gen⟩ : Tunnels).entry k a x =
    if a = gen then none else t.entry k a x := by
  split
  next h => subst h; cases k <;> simp [entry, conn, AList.lookup_erase, ConnTunnels.get]
  next h => simp [entry, conn, AList.lookup_erase_ne h]

theorem count_dropped_le : (⟨t.byConn.erase gen⟩ : Tunnels).count k a ≤ t.count k a := by
  by_cases h : a = gen
  · subst h; cases k <;> simp [count, conn, AList.lookup_erase, ConnTunnels.count, ConnTunnels.get]
  · simp [count, conn, AList.lookup_erase_ne h]

/-- The loop of `drop_conn` over the ends to remove. -/
def eraseAll (t : Tunnels) (ends : List (Kind × Endpoint)) : Tunnels :=
  ends.foldl (fun t p => t.erase p.1.mirror p.2.remoteGen p.2.remoteId) t

theorem entry_eraseAll {ends : List (Kind × Endpoint)} : (t.eraseAll ends).entry k a x =
    if (k.mirror, ⟨a, x⟩) ∈ ends then none else t.entry k a x := by
  induction ends generalizing t with
  | nil => rfl
  | cons p ends ih =>
    obtain ⟨k', e⟩ := p
    change ((t.erase k'.mirror e.remoteGen e.remoteId).eraseAll ends).entry k a x = _
    rw [ih, entry_erase]
    by_cases hmem : (k.mirror, (⟨a, x⟩ : Endpoint)) ∈ ends
    · simp [hmem]
    have hiff : (k = k'.mirror ∧ a = e.remoteGen ∧ x = e.remoteId) ↔
        (k.mirror, (⟨a, x⟩ : Endpoint)) = (k', e) := by
      constructor
      · rintro ⟨rfl, rfl, rfl⟩; rw [Kind.mirror_mirror]
      · rintro h; cases h; simp
    simp only [hmem, if_false, mem_cons, or_false, hiff]

theorem count_eraseAll_le {ends : List (Kind × Endpoint)} :
    (t.eraseAll ends).count k a ≤ t.count k a := by
  induction ends generalizing t with
  | nil => exact le_rfl
  | cons p ends ih => exact ih.trans count_erase_le

/-- The ends of a connection's tunnels, as `drop_conn` goes through them. -/
def ownEnds (t : Tunnels) (gid : Nat) : List (Kind × Endpoint) :=
  [Kind.established, .pendingOut, .pendingIn].flatMap fun k =>
    ((t.conn gid).get k).entries.map fun s => (k, s.2)

theorem mem_ownEnds : (k, e) ∈ t.ownEnds gen ↔ ∃ x, t.entry k gen x = some e := by
  simp only [ownEnds, List.mem_flatMap, List.mem_map, Prod.mk.injEq, entry]
  constructor
  · rintro ⟨k, -, ⟨x, e⟩, hmem, rfl, rfl⟩
    exact ⟨x, AList.mem_lookup_iff.mpr hmem⟩
  · rintro ⟨x, hx⟩
    exact ⟨k, by cases k <;> simp, ⟨x, e⟩, AList.mem_lookup_iff.mp hx, rfl, rfl⟩

theorem dropConn_eq : t.dropConn gen =
    ((t.ownEnds gen).map fun p => (p.2.remoteGen, p.2.remoteId),
      (⟨t.byConn.erase gen⟩ : Tunnels).eraseAll (t.ownEnds gen)) := by
  rw [dropConn]
  split
  next h =>
    have hmem : gen ∉ t.byConn.keys := AList.lookup_eq_none.mp h
    have herase : t.byConn.erase gen = t.byConn := by
      apply AList.ext
      exact kerase_of_notMem_keys hmem
    have hown : t.ownEnds gen = [] := by simp [ownEnds, conn, h, ConnTunnels.get]
    rw [hown, herase]
    rfl
  next own h =>
  have hown : t.conn gen = own := by simp [conn, h]
  simp only [ownEnds, hown]
  rfl

theorem mem_dropConn : (b, y) ∈ (t.dropConn gen).1 ↔ ∃ k x, t.entry k gen x = some ⟨b, y⟩ := by
  simp only [dropConn_eq, List.mem_map, Prod.exists]
  constructor
  · rintro ⟨k, e, hmem, h⟩
    obtain ⟨x, hx⟩ := mem_ownEnds.mp hmem
    cases h
    exact ⟨k, x, hx⟩
  · rintro ⟨k, x, hx⟩
    exact ⟨k, ⟨b, y⟩, mem_ownEnds.mpr ⟨x, hx⟩, rfl⟩

theorem Joins.dropConn (h : t.Joins P) (gen : Nat) :
    (t.dropConn gen).2.Joins (P.drop fun c => c.remoteGen = gen) := by
  intro k a e
  rw [dropConn_eq, entry_eraseAll, entry_dropped]
  simp only [Pairing.drop]
  by_cases ha : a.remoteGen = gen
  · simp [ha]
  rw [if_neg ha, if_neg ha, filter_eq_some_iff, ← h k a e]
  by_cases hown : (k.mirror, (⟨a.remoteGen, a.remoteId⟩ : Endpoint)) ∈ t.ownEnds gen
  · rw [if_pos hown]
    obtain ⟨x, hx⟩ := mem_ownEnds.mp hown
    have hback := (h k a ⟨gen, x⟩).mpr (by
      simpa using P.symm ((h k.mirror ⟨gen, x⟩ a).mp hx))
    refine iff_of_false (fun H => by cases H) fun H => ?_
    rw [hback] at H
    cases H.1
    simp at H
  · rw [if_neg hown]
    refine ⟨fun H => ⟨H, ?_⟩, And.left⟩
    simp only [decide_eq_true_eq]
    rintro rfl
    exact hown (mem_ownEnds.mpr ⟨e.remoteId, (h k.mirror e a).mpr (P.symm ((h k a e).mp H))⟩)

/-! ## The invariant -/

/-- What holds of the tunnel table, when `peerOf` says whose connection is whose. -/
structure Wf (peerOf : Nat → String) (t : Tunnels) : Prop where
  symm : ∀ {k a x b y}, t.entry k a x = some ⟨b, y⟩ → t.entry k.mirror b y = some ⟨a, x⟩
  single : ∀ {k k' a x e e'}, t.entry k a x = some e → t.entry k' a x = some e' → k = k'
  ne_zero : ∀ {k a x e}, t.entry k a x = some e → x ≠ 0
  peers : ∀ {k a x e}, t.entry k a x = some e → peerOf a ≠ peerOf e.remoteGen
  total_le : ∀ a, t.total a ≤ maxTunnels
  pendingOut_le : ∀ a, t.count .pendingOut a ≤ maxPendingOpens
  pendingIn_le : ∀ a, t.count .pendingIn a ≤ maxPendingOpens

variable {peerOf : Nat → String}

theorem Wf.joins (h : t.Wf peerOf) : ∃ P : Pairing Kind.mirror Endpoint, t.Joins P := by
  have hslot : ∀ a k e, t.slot a = some (k, e) ↔ t.entry k a.remoteGen a.remoteId = some e := by
    intro a k e
    simp only [slot, findSome?_cons, findSome?_nil]
    constructor
    · intro H
      split at H
      next hk => cases H; obtain ⟨_, hk, hp⟩ := map_eq_some_iff.mp hk; cases hp; exact hk
      split at H
      next hk => cases H; obtain ⟨_, hk, hp⟩ := map_eq_some_iff.mp hk; cases hp; exact hk
      split at H
      next hk => cases H; obtain ⟨_, hk, hp⟩ := map_eq_some_iff.mp hk; cases hp; exact hk
      cases H
    · intro H
      have hne : ∀ k', k' ≠ k → t.entry k' a.remoteGen a.remoteId = none := fun k' hne =>
        eq_none_iff_forall_not_mem.mpr fun e' he' => hne (h.single he' H)
      cases k <;> simp [H, hne]
  refine ⟨⟨t.slot, fun {a k b} H => ?_⟩, fun k a e => (hslot a k e).symm⟩
  exact (hslot b k.mirror a).mpr (h.symm ((hslot a k b).mp H))

theorem Joins.wf (hJ : t.Joins P)
    (hends : ∀ {a k e}, P.slot a = some (k, e) →
      a.remoteId ≠ 0 ∧ peerOf a.remoteGen ≠ peerOf e.remoteGen)
    (hcount : ∀ a, t.total a ≤ maxTunnels ∧ t.count .pendingOut a ≤ maxPendingOpens ∧
      t.count .pendingIn a ≤ maxPendingOpens) : t.Wf peerOf where
  symm H := (hJ _ ⟨_, _⟩ ⟨_, _⟩).mpr (P.symm ((hJ _ ⟨_, _⟩ ⟨_, _⟩).mp H))
  single {k k' a x e e'} H H' := by
    have := ((hJ k ⟨a, x⟩ e).mp H).symm.trans ((hJ k' ⟨a, x⟩ e').mp H')
    exact congrArg Prod.fst (some.inj this)
  ne_zero {k a x e} H := (hends ((hJ k ⟨a, x⟩ e).mp H)).1
  peers {k a x e} H := (hends ((hJ k ⟨a, x⟩ e).mp H)).2
  total_le a := (hcount a).1
  pendingOut_le a := (hcount a).2.1
  pendingIn_le a := (hcount a).2.2

theorem Wf.ends (h : t.Wf peerOf) (hJ : t.Joins P) {a : Endpoint} (H : P.slot a = some (k, e)) :
    a.remoteId ≠ 0 ∧ peerOf a.remoteGen ≠ peerOf e.remoteGen :=
  have := (hJ k a e).mpr H
  ⟨h.ne_zero this, h.peers this⟩

theorem Wf.counts (h : t.Wf peerOf) {t' : Tunnels} (hle : ∀ k a, t'.count k a ≤ t.count k a) (a : Nat) :
    t'.total a ≤ maxTunnels ∧ t'.count .pendingOut a ≤ maxPendingOpens ∧
      t'.count .pendingIn a ≤ maxPendingOpens := by
  have htotal : t'.total a ≤ t.total a := by
    exact Nat.add_le_add (Nat.add_le_add (hle _ _) (hle _ _)) (hle _ _)
  exact ⟨htotal.trans (h.total_le a), (hle _ _).trans (h.pendingOut_le a),
    (hle _ _).trans (h.pendingIn_le a)⟩

theorem wf_empty : ({} : Tunnels).Wf peerOf := by
  refine Joins.wf (P := ⟨fun _ => none, nofun⟩) (fun k a e => iff_of_false (fun H => ?_) nofun)
    nofun fun a => ?_
  · cases k <;> cases H
  · exact ⟨Nat.zero_le _, Nat.zero_le _, Nat.zero_le _⟩

/-- Tables with the same maps: `entry(gen).or_default()` and the hint of `alloc_id` change no
map. -/
def Same (t t' : Tunnels) : Prop := ∀ gen, (t'.conn gen).get = (t.conn gen).get

theorem Same.entry {t' : Tunnels} (h : t.Same t') : t'.entry k a x = t.entry k a x := by
  rw [Tunnels.entry, h a]; rfl

theorem Same.count {t' : Tunnels} (h : t.Same t') : t'.count k a = t.count k a := by
  rw [Tunnels.count, ConnTunnels.count, h a]; rfl

theorem Same.setConn {t' : Tunnels} (h : t.Same t') (hc : c.get = (t.conn gen).get) :
    t.Same (t'.setConn gen c) := fun gen' => by
  rw [conn_setConn]
  split
  next hg => rw [hc, hg]
  next => exact h gen'

theorem Wf.same {t' : Tunnels} (h : t.Wf peerOf) (hs : t.Same t') : t'.Wf peerOf := by
  obtain ⟨P, hJ⟩ := h.joins
  exact (hJ.congr fun _ _ _ => hs.entry).wf (h.ends hJ) (h.counts fun _ _ => hs.count.le)

theorem Wf.unlink (h : t.Wf peerOf) : (t.unlink k a x).2.Wf peerOf := by
  rw [Tunnels.unlink]
  split
  · exact h
  next e he =>
  obtain ⟨P, hJ⟩ := h.joins
  refine (hJ.erase he).wf (fun {c k' d} H => ?_) (h.counts fun _ _ => ?_)
  · rw [Pairing.slot_unlink ((hJ k ⟨a, x⟩ e).mp he)] at H
    split at H
    · cases H
    · exact h.ends hJ H
  · exact count_erase_le.trans count_erase_le

theorem Wf.dropConn (h : t.Wf peerOf) : (t.dropConn gen).2.Wf peerOf := by
  obtain ⟨P, hJ⟩ := h.joins
  refine (hJ.dropConn gen).wf (fun {c k' d} H => ?_) (h.counts fun _ _ => ?_)
  · simp only [Pairing.drop] at H
    split at H
    · cases H
    · exact h.ends hJ (filter_eq_some_iff.mp H).1
  · rw [dropConn_eq]
    exact count_eraseAll_le.trans count_dropped_le

theorem Wf.link (h : t.Wf peerOf) (ha : ∀ k, t.entry k a x = none)
    (hb : ∀ k, t.entry k b y = none) (hx : x ≠ 0) (hy : y ≠ 0) (hab : peerOf a ≠ peerOf b)
    (hcount : ∀ c, let t' := (t.insert k a x ⟨b, y⟩).insert k.mirror b y ⟨a, x⟩
      t'.total c ≤ maxTunnels ∧ t'.count .pendingOut c ≤ maxPendingOpens ∧
        t'.count .pendingIn c ≤ maxPendingOpens) :
    ((t.insert k a x ⟨b, y⟩).insert k.mirror b y ⟨a, x⟩).Wf peerOf := by
  obtain ⟨P, hJ⟩ := h.joins
  have hne : (⟨a, x⟩ : Endpoint) ≠ ⟨b, y⟩ := fun H => hab (by cases H; rfl)
  refine (hJ.insert (hJ.entry_eq_none.mp ha) (hJ.entry_eq_none.mp hb) hne).wf
    (fun {c k' d} H => ?_) hcount
  simp only [Pairing.link] at H
  split at H
  next hc => cases H; subst hc; exact ⟨hx, hab⟩
  next =>
  split at H
  next hc => cases H; subst hc; exact ⟨hy, hab.symm⟩
  next => exact h.ends hJ H

theorem Wf.ne (h : t.Wf peerOf) (he : t.entry k a x = some e) : a ≠ e.remoteGen := fun hg =>
  h.peers he (congrArg peerOf hg)

/-- A table without a pair of `t`. -/
def without (t : Tunnels) (k : Kind) (a : Nat) (x : UInt32) (e : Endpoint) : Tunnels :=
  (t.erase k a x).erase k.mirror e.remoteGen e.remoteId

theorem Wf.without (h : t.Wf peerOf) (he : t.entry k a x = some e) :
    (t.without k a x e).Wf peerOf := by
  have := h.unlink (k := k) (a := a) (x := x)
  rw [Tunnels.unlink, he] at this
  exact this

theorem Wf.free_without (h : t.Wf peerOf) (he : t.entry k a x = some e) (k' : Kind) :
    (t.without k a x e).entry k' a x = none ∧
      (t.without k a x e).entry k' e.remoteGen e.remoteId = none := by
  have hnone : ∀ {k₀ b y}, t.entry k₀ b y ≠ none → ∀ k', k' ≠ k₀ → t.entry k' b y = none := by
    intro k₀ b y h₀ k' hne
    obtain ⟨e₀, he₀⟩ := ne_none_iff_exists'.mp h₀
    exact eq_none_iff_forall_not_mem.mpr fun e' he' => hne (h.single he' he₀)
  have hback := h.symm he
  simp only [Tunnels.without, entry_erase]
  constructor
  · by_cases hk : k' = k
    · simp [hk]
    · simp [hk, hnone (he ▸ some_ne_none e) k' hk]
  · by_cases hk : k' = k.mirror
    · simp [hk]
    · simp [hk, hnone (hback ▸ some_ne_none _) k' hk]

theorem Wf.count_without (h : t.Wf peerOf) (he : t.entry k a x = some e) (k' : Kind) (b : Nat) :
    (t.without k a x e).count k' b + (if b = a ∧ k' = k then 1 else 0) +
      (if b = e.remoteGen ∧ k' = k.mirror then 1 else 0) = t.count k' b := by
  have hback : (t.erase k a x).entry k.mirror e.remoteGen e.remoteId = some ⟨a, x⟩ := by
    rw [entry_erase, if_neg fun H => h.ne he H.2.1.symm]
    exact h.symm he
  have h₁ := count_erase hback k' b
  have h₂ := count_erase he k' b
  simp only [Tunnels.without]
  omega

theorem Wf.accept_eq (h : t.Wf peerOf) (he : t.entry .pendingIn a x = some e) :
    t.accept a x = (.ok (e.remoteGen, e.remoteId),
      ((t.without .pendingIn a x e).insert .established a x e).insert .established
        e.remoteGen e.remoteId ⟨a, x⟩) := by
  have hback : (t.erase .pendingIn a x).entry .pendingOut e.remoteGen e.remoteId =
      some ⟨a, x⟩ := by
    rw [entry_erase, if_neg fun H => h.ne he H.2.1.symm]
    exact h.symm he
  rw [accept, he]
  simp only [hback]
  rfl

theorem count_link (hfree : t.entry k a x = none) (hfree' : t.entry k.mirror b y = none)
    (hab : a ≠ b) (k' : Kind) (c : Nat) :
    ((t.insert k a x ⟨b, y⟩).insert k.mirror b y ⟨a, x⟩).count k' c = t.count k' c +
      (if c = a ∧ k' = k then 1 else 0) + if c = b ∧ k' = k.mirror then 1 else 0 := by
  have h : (t.insert k a x ⟨b, y⟩).entry k.mirror b y = none := by
    rw [entry_insert, if_neg fun H => hab H.2.1.symm]
    exact hfree'
  rw [count_insert h, count_insert hfree]

theorem Wf.accept (h : t.Wf peerOf) : (t.accept a x).2.Wf peerOf := by
  cases he : t.entry .pendingIn a x with
  | none => rw [Tunnels.accept, he]; exact h
  | some e =>
    have hfree := h.free_without he
    rw [h.accept_eq he]
    refine (h.without he).link (fun k => (hfree k).1) (fun k => (hfree k).2) (h.ne_zero he)
      (h.ne_zero (h.symm he)) (h.peers he) fun c => ?_
    -- the pair moves from the pending maps to the established ones
    have hlink := fun k => count_link (hfree .established).1 (hfree .established).2 (h.ne he) k c
    have hest := hlink .established
    have hout := hlink .pendingOut
    have hin := hlink .pendingIn
    have hest' := h.count_without he .established c
    have hout' := h.count_without he .pendingOut c
    have hin' := h.count_without he .pendingIn c
    have htotal := h.total_le c
    have hpo := h.pendingOut_le c
    have hpi := h.pendingIn_le c
    simp only [Kind.mirror, reduceCtorEq, and_true, and_false, if_false, Nat.add_zero] at *
    rw [total_eq] at htotal ⊢
    omega

/-! ## Opening -/

/-- What a successful `open` found: two free ends of different peers, each connection below its
limits. -/
structure CanOpen (t : Tunnels) (fromGen : Nat) (fromPeer : String) (localId : UInt32)
    (toGen : Nat) (toPeer : String) (remoteId : UInt32) : Prop where
  peers : fromPeer ≠ toPeer
  local_ne : localId ≠ 0
  remote_ne : remoteId ≠ 0
  local_free : ∀ k, t.entry k fromGen localId = none
  remote_free : ∀ k, t.entry k toGen remoteId = none
  from_total : t.total fromGen < maxTunnels
  from_pending : t.count .pendingOut fromGen < maxPendingOpens
  to_total : t.total toGen < maxTunnels
  to_pending : t.count .pendingIn toGen < maxPendingOpens

theorem not_used_iff : ¬ (t.conn a).used x ↔ ∀ k, t.entry k a x = none := by
  rw [ConnTunnels.used_iff, not_exists]
  exact forall_congr' fun k => not_not

theorem open_cases (t : Tunnels) (a : Nat) (p : String) (x : UInt32) (b : Nat) (q : String) :
    (∃ f, (t.open a p x b q).1 = .error f ∧ t.Same (t.open a p x b q).2) ∨
    ∃ y t₁, t.CanOpen a p x b q y ∧ t.Same t₁ ∧ t.open a p x b q =
      (.ok y, (t₁.insert .pendingOut a x ⟨b, y⟩).insert .pendingIn b y ⟨a, x⟩) := by
  have hsrc : t.Same (t.setConn a (t.conn a)) := Same.setConn (fun _ => rfl) rfl
  have hconn : (t.setConn a (t.conn a)).conn b = t.conn b := by
    rw [conn_setConn]
    split
    next h => rw [h]
    next => rfl
  have hdst : t.Same ((t.setConn a (t.conn a)).setConn b (t.conn b)) := hsrc.setConn rfl
  simp only [Tunnels.open]
  split
  · exact .inl ⟨_, rfl, fun _ => rfl⟩
  next hpeers =>
  split
  · exact .inl ⟨_, rfl, fun _ => rfl⟩
  next hx =>
  split
  · exact .inl ⟨_, rfl, hsrc⟩
  next hused =>
  split
  · exact .inl ⟨_, rfl, hsrc⟩
  next hfrom =>
  rw [hconn]
  split
  · exact .inl ⟨_, rfl, hdst⟩
  next hto =>
  split
  · exact .inl ⟨_, rfl, hdst⟩
  next y dst hdstId =>
  obtain ⟨hy, hfree, hget⟩ := ConnTunnels.allocId_eq_some hdstId
  simp only [Bool.or_eq_true, decide_eq_true_eq, not_or, Nat.not_le] at hfrom hto
  exact .inr ⟨y, _, ⟨hpeers, hx, hy, not_used_iff.mp hused, not_used_iff.mp hfree,
    hfrom.1, hfrom.2, hto.1, hto.2⟩, hdst.setConn hget, rfl⟩

theorem Wf.open (h : t.Wf peerOf) : (t.open a (peerOf a) x b (peerOf b)).2.Wf peerOf := by
  rcases open_cases t a (peerOf a) x b (peerOf b) with ⟨f, -, hs⟩ | ⟨y, t₁, hc, hs, heq⟩
  · exact h.same hs
  rw [heq]
  have hfree : ∀ k, t₁.entry k a x = none := fun k => hs.entry.trans (hc.local_free k)
  have hfree' : ∀ k, t₁.entry k b y = none := fun k => hs.entry.trans (hc.remote_free k)
  have hab : a ≠ b := fun H => hc.peers (congrArg peerOf H)
  refine (h.same hs).link (k := .pendingOut) hfree hfree' hc.local_ne hc.remote_ne hc.peers
    fun c => ?_
  have hlink := fun k => count_link (k := .pendingOut) (hfree _) (hfree' _) hab k c
  have hest := hlink .established
  have hout := hlink .pendingOut
  have hin := hlink .pendingIn
  have htotal := h.total_le c
  have hpo := h.pendingOut_le c
  have hpi := h.pendingIn_le c
  simp only [Kind.mirror, reduceCtorEq, and_true, and_false, if_false, Nat.add_zero, hs.count] at *
  have hfrom := hc.from_total
  have hfrom' := hc.from_pending
  have hto := hc.to_total
  have hto' := hc.to_pending
  rw [total_eq] at htotal hfrom hto ⊢
  by_cases hca : c = a
  · subst hca
    simp only [if_true, if_neg hab] at *
    omega
  by_cases hcb : c = b
  · subst hcb
    simp only [if_true, if_neg hca] at *
    omega
  · simp only [if_neg hca, if_neg hcb] at *
    omega

/-! ## Which connections have tunnels -/

def Uses (t : Tunnels) (a : Nat) : Prop := ∃ k x e, t.entry k a x = some e

theorem Uses.of_erase (h : (t.erase k b y).Uses a) : t.Uses a := by
  obtain ⟨k', x, e, he⟩ := h
  rw [entry_erase] at he
  split at he
  · cases he
  · exact ⟨k', x, e, he⟩

theorem Uses.of_insert (h : (t.insert k b y e).Uses a) : a = b ∨ t.Uses a := by
  obtain ⟨k', x, e', he⟩ := h
  rw [entry_insert] at he
  split at he
  next h' => exact .inl h'.2.1
  next => exact .inr ⟨k', x, e', he⟩

theorem Uses.of_same {t' : Tunnels} (hs : t.Same t') (h : t'.Uses a) : t.Uses a := by
  obtain ⟨k, x, e, he⟩ := h
  exact ⟨k, x, e, hs.entry ▸ he⟩

theorem Uses.of_unlink (h : (t.unlink k b y).2.Uses a) : t.Uses a := by
  rw [unlink] at h
  split at h
  · exact h
  · exact h.of_erase.of_erase

theorem Uses.of_accept (H : t.Wf peerOf) (h : (t.accept b y).2.Uses a) : t.Uses a := by
  cases he : t.entry .pendingIn b y with
  | none => rw [Tunnels.accept, he] at h; exact h
  | some e =>
    rw [H.accept_eq he] at h
    rcases h.of_insert with rfl | h
    · exact ⟨_, _, _, H.symm he⟩
    rcases h.of_insert with rfl | h
    · exact ⟨_, _, _, he⟩
    · exact h.of_erase.of_erase

theorem Uses.of_open {p q : String} {c : Nat} (h : (t.open b p y c q).2.Uses a) : a = b ∨ a = c ∨ t.Uses a := by
  rcases open_cases t b p y c q with ⟨f, -, hs⟩ | ⟨z, t₁, -, hs, heq⟩
  · exact .inr (.inr (h.of_same hs))
  rw [heq] at h
  rcases h.of_insert with h | h
  · exact .inr (.inl h)
  rcases h.of_insert with h | h
  · exact .inl h
  · exact .inr (.inr (h.of_same hs))

end Tunnels

/-! ## Sequences of operations -/

/-- The operations on the table; `open` is from connection `fromGen`, whose client chose the id. -/
inductive TunnelOp
  | «open» (fromGen : Nat) (localId : UInt32) (toGen : Nat)
  | accept (gid : Nat) (localId : UInt32)
  | reject (gid : Nat) (localId : UInt32)
  | timeoutOpen (fromGen : Nat) (localId : UInt32)
  | close (gid : Nat) (localId : UInt32)
  | dropConn (gid : Nat)

namespace Tunnels

variable {peerOf : Nat → String} {t : Tunnels}

def apply (peerOf : Nat → String) (t : Tunnels) : TunnelOp → Tunnels
  | .open fromGen localId toGen =>
    (t.open fromGen (peerOf fromGen) localId toGen (peerOf toGen)).2
  | .accept gid localId => (t.accept gid localId).2
  | .reject gid localId => (t.reject gid localId).2
  | .timeoutOpen fromGen localId => (t.timeoutOpen fromGen localId).2
  | .close gid localId => (t.close gid localId).2
  | .dropConn gid => (t.dropConn gid).2

/-- The table after a sequence of operations. -/
def after (peerOf : Nat → String) (ops : List TunnelOp) : Tunnels := ops.foldl (apply peerOf) {}

theorem reject_snd : (t.reject a x).2 = (t.unlink .pendingIn a x).2 := by
  rw [reject]
  split <;> simp_all

theorem close_snd : (t.close a x).2 = (t.unlink .established a x).2 ∨
    (t.close a x).2 = (t.unlink .pendingOut a x).2 ∨
    (t.close a x).2 = (t.unlink .pendingIn a x).2 := by
  have hnone : ∀ {k}, (t.unlink k a x).1 = none → (t.unlink k a x).2 = t := by
    intro k h
    rw [unlink] at h ⊢
    split <;> simp_all
  rw [close]
  split
  next h => exact .inl (by rw [h])
  next t₁ h =>
  have ht₁ : t₁ = t := by rw [← hnone (congrArg Prod.fst h), h]
  subst ht₁
  split
  next h => exact .inr (.inl (by rw [h]))
  next t₂ h =>
  have ht₂ : t₂ = t₁ := by rw [← hnone (congrArg Prod.fst h), h]
  exact .inr (.inr (by rw [ht₂]))

theorem Wf.apply (h : t.Wf peerOf) (op : TunnelOp) : (t.apply peerOf op).Wf peerOf := by
  cases op with
  | «open» fromGen localId toGen => exact h.open
  | accept gid localId => exact h.accept
  | reject gid localId =>
    rw [Tunnels.apply, reject_snd]
    exact h.unlink
  | timeoutOpen fromGen localId => exact h.unlink
  | close gid localId =>
    rcases close_snd (t := t) (a := gid) (x := localId) with hc | hc | hc
    all_goals
      rw [Tunnels.apply, hc]
      exact h.unlink
  | dropConn gid => exact h.dropConn

theorem wf_after (ops : List TunnelOp) : (after peerOf ops).Wf peerOf := by
  have : ∀ {t : Tunnels}, t.Wf peerOf → (ops.foldl (apply peerOf) t).Wf peerOf := by
    induction ops with
    | nil => exact id
    | cons op ops ih => exact fun h => ih (h.apply op)
  exact this wf_empty

/-- After any operations the table is well formed, its entries come in mirrored pairs, and what
`lookup` finds is found back from the other end. -/
theorem table_invariant (peerOf : Nat → String) (ops : List TunnelOp) :
    (after peerOf ops).Wf peerOf ∧
    (∀ k a x b y, (after peerOf ops).entry k a x = some ⟨b, y⟩ ↔
      (after peerOf ops).entry k.mirror b y = some ⟨a, x⟩) ∧
    ∀ a x e, (after peerOf ops).lookup a x = some e →
      (after peerOf ops).lookup e.remoteGen e.remoteId = some ⟨a, x⟩ := by
  have h : (after peerOf ops).Wf peerOf := wf_after ops
  refine ⟨h, fun k a x b y => ⟨h.symm, fun H => ?_⟩, fun a x e H => h.symm H⟩
  simpa using h.symm H

/-- Eight opens of a connection and eight offers to it: each direction has a limit of its own. -/
theorem pending_exceeds_limit : ¬ ∀ (peerOf : Nat → String) (ops : List TunnelOp) (a : Nat),
    (after peerOf ops).count .pendingOut a + (after peerOf ops).count .pendingIn a ≤
      maxPendingOpens := by
  intro h
  have := h (fun gen => if gen = 1 then "a" else "b")
    ([101, 102, 103, 104, 105, 106, 107, 108].flatMap fun id => [.open 1 id 2, .open 2 id 1]) 1
  revert this
  decide +kernel

end Tunnels

end Bluetalk.Relay

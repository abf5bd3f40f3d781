import Bluetalk.Storage.StoreOps

/-!
# The two stores side by side

The browser store and the desktop store answer alike, in every sequence of operations in which the
browser does not read what an object inherits, stays with one account and leaves the row it keeps for
itself alone, and in which what fits into the one store fits into the other.
-/

namespace Bluetalk.Storage
open Reader

/-- The browser store and the desktop store, given the same operations. -/
structure Stores where
  web : IdbStore := {}
  desktop : KvTable := {}

namespace Stores

def next (s : Stores) (op : StoreOp) : Stores := ⟨(s.web.apply op).1, (s.desktop.apply op).1⟩

def run (s : Stores) (ops : List StoreOp) : Stores := ops.foldl next s

/-- What the two answer to each operation. -/
def answers (s : Stores) : List StoreOp → List (Except StoreError JsValue × Except StoreError Json)
  | [] => []
  | op :: ops => ((s.web.apply op).2, (s.desktop.apply op).2) :: (s.next op).answers ops

/-- The same error, or the same value. -/
def Agree : Except StoreError JsValue → Except StoreError Json → Prop
  | .ok (.json x), .ok y => x.Same y
  | .error e, .error e' => e = e'
  | _, _ => False

/-! ### Where they do -/

/-- What the operations on a key have to leave alone. -/
def PlainAt (s : Stores) (k : StoreKey) : StoreOp → Prop
  | .get _ _ => (k.top = "activePeerId" → s.web.top k.top = none) ∧
      inherits (s.web.top k.top) k.path = false
  | .set _ value => k.top ≠ "activePeerId" ∧ ¬ s.web.Turns k.top (s.web.next k value) ∧
      (jsonBytes value ≤ maxStoreValueBytes →
        (s.desktop.next k value).depth ≤ Database.maxDepth) ∧
      (jsonBytes value ≤ maxStoreValueBytes ↔
        jsonBytes (s.desktop.next k value) ≤ maxStoreValueBytes)
  | .delete _ => (k.top = "activePeerId" → s.web.top k.top = none) ∧ s.web.DeletesPlainly k

def Plain (s : Stores) (op : StoreOp) : Prop :=
  KeyAgrees op.key ∧ match Idb.splitKey op.key with
    | .error _ => True
    | .ok k => k.top = "messages" ∨ s.PlainAt k op

instance {s : Stores} {k : StoreKey} : (op : StoreOp) → Decidable (s.PlainAt k op)
  | .get _ _ => inferInstanceAs (Decidable (_ ∧ _))
  | .set _ _ => inferInstanceAs (Decidable (_ ∧ _ ∧ _ ∧ _))
  | .delete _ => inferInstanceAs (Decidable (_ ∧ _))

instance {s : Stores} {op : StoreOp} : Decidable (s.Plain op) :=
  have : Decidable (match Idb.splitKey op.key with
      | .error _ => True
      | .ok k => k.top = "messages" ∨ s.PlainAt k op) :=
    match Idb.splitKey op.key with
    | .error _ => .isTrue trivial
    | .ok k => inferInstanceAs (Decidable (k.top = "messages" ∨ s.PlainAt k op))
  inferInstanceAs (Decidable (_ ∧ _))

/-- Every operation is plain where it is made. -/
def PlainRun (s : Stores) : List StoreOp → Prop
  | [] => True
  | op :: ops => s.Plain op ∧ (s.next op).PlainRun ops

instance decidablePlainRun : (s : Stores) → (ops : List StoreOp) → Decidable (s.PlainRun ops)
  | _, [] => .isTrue trivial
  | s, op :: ops =>
    have := decidablePlainRun (s.next op) ops
    inferInstanceAs (Decidable (s.Plain op ∧ (s.next op).PlainRun ops))

/-- Neither key is the other or leads to it. -/
def Apart (key key' : String) : Prop :=
  ∀ k k', Idb.splitKey key = .ok k → Idb.splitKey key' = .ok k' →
    Unrelated (k.top :: k.path) (k'.top :: k'.path)

/-- What is set is got, and what is set or deleted is no other key's. -/
structure LensLaws (s : Stores) : Prop where
  web_get_set : ∀ key value defaultValue, s.Plain (.set key value) →
    (s.web.set key value).2 = .ok true →
      ((s.web.set key value).1.get key defaultValue).2 = .ok (.json value)
  desktop_get_set : ∀ key value defaultValue t, s.Plain (.set key value) →
    s.desktop.set key value = .ok (t, true) → t.get key defaultValue = .ok value
  web_get_other : ∀ op key defaultValue, s.Plain op → Apart op.key key →
    s.Plain (.get key defaultValue) → (s.next op).Plain (.get key defaultValue) →
      ((s.web.apply op).1.get key defaultValue).2 = (s.web.get key defaultValue).2
  desktop_get_other : ∀ op key defaultValue, s.Plain op → Apart op.key key →
    (s.desktop.apply op).1.get key defaultValue = s.desktop.get key defaultValue

/-- Both stores read alike, and the desktop can read all it has. -/
structure InStep (s : Stores) : Prop where
  settled : s.web.Settled
  readable : s.desktop.Readable
  alike : ∀ top, top ≠ "activePeerId" →
    Alike (below (s.web.top top)) (below (s.desktop.rows.lookup top))
  unset : s.desktop.rows.lookup "activePeerId" = none

theorem inStep_empty : InStep {} where
  settled := IdbStore.settled_empty
  readable := nofun
  alike _ _ := Alike.refl _
  unset := rfl

variable {s : Stores} {op : StoreOp} {key : String} {k : StoreKey} {value defaultValue : Json}

theorem InStep.alike_at (h : s.InStep) {top : String}
    (hactive : top = "activePeerId" → s.web.top top = none) :
    Alike (below (s.web.top top)) (below (s.desktop.rows.lookup top)) := by
  by_cases htop : top = "activePeerId"
  · rw [hactive htop, htop, h.unset]
    exact Alike.refl _
  · exact h.alike top htop

theorem InStep.write (h : s.InStep) {web : IdbStore} {desktop : KvTable} {x y : Option Json}
    {top : String} (htop : top ≠ "activePeerId") (hweb : s.web.Writes web top x)
    (hdesktop : s.desktop.Writes desktop top y) (hxy : Alike (below x) (below y))
    (hy : ∀ z, y = some z → z.depth ≤ Database.maxDepth ∧ jsonBytes z ≤ maxStoreValueBytes) :
    InStep ⟨web, desktop⟩ where
  settled := hweb.settled
  readable key z hz := by
    have hrow := hdesktop key
    split at hrow
    · exact hy z (hrow.symm.trans hz)
    · exact h.readable key z (hrow.symm.trans hz)
  alike key hkey := by
    have hrow := hdesktop key
    split at hrow
    · next heq =>
      subst heq
      rw [hweb.here, hrow]
      exact hxy
    · next hne =>
      rw [hweb.others key hne hkey, hrow]
      exact h.alike key hkey
  unset := (hdesktop _).trans ((if_neg fun heq => htop heq.symm).trans h.unset)

theorem Plain.splitKey_eq (h : s.Plain op) : Database.splitKey op.key = Idb.splitKey op.key :=
  h.1.splitKey_eq

theorem Plain.at (h : s.Plain op) (hk : Idb.splitKey op.key = .ok k) (hm : k.top ≠ "messages") :
    s.PlainAt k op := by
  have hplain := h.2
  rw [hk] at hplain
  exact hplain.resolve_left hm

/-! ### What one operation comes to -/

/-- Nothing changes, or both stores write one row, and change nothing apart from the key. -/
inductive Outcome (s : Stores) (op : StoreOp) : Prop
  | unchanged (hweb : (s.web.apply op).1 = s.web) (hdesktop : (s.desktop.apply op).1 = s.desktop)
  | written (k : StoreKey) (x y : Option Json) (hk : Idb.splitKey op.key = .ok k)
      (htop : k.top ≠ "activePeerId")
      (hweb : s.web.Writes (s.web.apply op).1 k.top x)
      (hdesktop : s.desktop.Writes (s.desktop.apply op).1 k.top y)
      (hxy : Alike (below x) (below y))
      (hy : ∀ z, y = some z → z.depth ≤ Database.maxDepth ∧ jsonBytes z ≤ maxStoreValueBytes)
      (hx_other : ∀ q, Unrelated k.path q → below x q = below (s.web.top k.top) q)
      (hy_other : ∀ q, Unrelated k.path q → below y q = below (s.desktop.rows.lookup k.top) q)

theorem Json.Same.refl (x : Json) : x.Same x := fun _ => rfl

theorem below_append {x : Option Json} {p q : List String} :
    below x (p ++ q) = (below x p).bind fun y => y.atPath q := by
  cases x with
  | none => rfl
  | some x => exact Json.atPath_append x

theorem getD_same {x y : Option Json} (h : Alike (below x) (below y)) (path : List String) :
    ((below x path).getD defaultValue).Same ((below y path).getD defaultValue) := by
  have hnone := h.eq_none_iff (p := path)
  cases hx : below x path with
  | none =>
    rw [hnone.mp hx]
    exact Json.Same.refl _
  | some u =>
    cases hy : below y path with
    | none =>
      rw [hnone.mpr hy] at hx
      cases hx
    | some v =>
      intro q
      have hq := h (path ++ q)
      rw [below_append, below_append, hx, hy] at hq
      exact hq

theorem agree_of_same {x : Except StoreError Json} : Agree (x.map JsValue.json) x := by
  cases x with
  | error e => rfl
  | ok x => exact Json.Same.refl x

theorem InStep.get (h : s.InStep) (hop : s.PlainAt k (.get key defaultValue))
    (hk : Idb.splitKey key = .ok k) (hk' : Database.splitKey key = .ok k)
    (hm : k.top ≠ "messages") : s.Outcome (.get key defaultValue) ∧
      Agree (s.web.get key defaultValue).2 (s.desktop.get key defaultValue) := by
  obtain ⟨hactive, hinherits⟩ := hop
  refine ⟨.unchanged ?_ rfl, ?_⟩
  · rw [IdbStore.apply, h.settled.get hk hm hinherits]
  · rw [h.settled.get hk hm hinherits, h.readable.get hk' hm]
    exact getD_same (h.alike_at hactive) k.path

theorem InStep.set (h : s.InStep) (hop : s.PlainAt k (.set key value))
    (hk : Idb.splitKey key = .ok k) (hk' : Database.splitKey key = .ok k)
    (hm : k.top ≠ "messages") : s.Outcome (.set key value) ∧
      Agree (s.web.apply (.set key value)).2 (s.desktop.apply (.set key value)).2 := by
  obtain ⟨htop, hturn, hdepth, hsize⟩ := hop
  by_cases hlarge : maxStoreValueBytes < jsonBytes value
  · have hlarge' : maxStoreValueBytes < jsonBytes (s.desktop.next k value) :=
      Nat.lt_of_not_le fun hle => Nat.not_le.mpr hlarge (hsize.mpr hle)
    have hweb : s.web.apply (.set key value) = (s.web,
        .error (.invalidInput "store value exceeds the 64 MiB limit")) := by
      rw [IdbStore.apply, IdbStore.set_tooLarge hk hm hlarge]
      rfl
    have hdesktop : s.desktop.apply (.set key value) = (s.desktop,
        .error (.invalidInput "store value exceeds the 64 MiB limit")) := by
      rw [KvTable.apply, KvTable.set_eq hk' hm (h.readable.loadTop k.top), if_pos hlarge']
    rw [hweb, hdesktop]
    exact ⟨.unchanged (by rw [hweb]) (by rw [hdesktop]), rfl⟩
  · have hfits := Nat.le_of_not_lt hlarge
    have hweb : s.web.apply (.set key value) =
        (s.web.kvPutRaw k.top (s.web.next k value), .ok (.json (.bool true))) := by
      rw [IdbStore.apply, h.settled.set hk hm hfits]
      rfl
    have hdesktop : s.desktop.apply (.set key value) =
        (⟨setField k.top (s.desktop.next k value) s.desktop.rows⟩, .ok (.bool true)) := by
      rw [KvTable.apply, KvTable.set_eq hk' hm (h.readable.loadTop k.top),
        if_neg (Nat.not_lt.mpr (hsize.mp hfits))]
    have hputs : Puts (below (s.web.top k.top)) (s.web.next k value).atPath k.path value :=
      s.web.next_puts
    have hputs' : Puts (below (s.desktop.rows.lookup k.top)) (s.desktop.next k value).atPath k.path
        value := s.desktop.next_puts
    have hwrites := h.settled.kvPutRaw htop hturn
    have hwrites' : s.desktop.Writes ⟨setField k.top (s.desktop.next k value) s.desktop.rows⟩ k.top
        (some (s.desktop.next k value)) := fun key' => lookup_setField k.top key' _ s.desktop.rows
    refine ⟨.written k (some (s.web.next k value)) (some (s.desktop.next k value)) hk htop
      (by rw [hweb]; exact hwrites) (by rw [hdesktop]; exact hwrites')
      (hputs.alike (h.alike k.top htop) hputs') ?_ hputs.outside hputs'.outside, ?_⟩
    · intro z hz
      cases hz
      exact ⟨hdepth hfits, hsize.mp hfits⟩
    · rw [hweb, hdesktop]
      exact Json.Same.refl _

theorem InStep.delete (h : s.InStep) (hop : s.PlainAt k (.delete key))
    (hk : Idb.splitKey key = .ok k) (hk' : Database.splitKey key = .ok k)
    (hm : k.top ≠ "messages") : s.Outcome (.delete key) ∧
      Agree (s.web.apply (.delete key)).2 (s.desktop.apply (.delete key)).2 := by
  obtain ⟨hactive, hplain⟩ := hop
  have hnone := (h.alike_at hactive).eq_none_iff (p := k.path)
  rcases h.settled.delete hk hm hactive hplain with
    ⟨hdelete, hgone⟩ | ⟨web, x, hdelete, hthere, htop, hwrites, htakes⟩
  · have hweb : s.web.apply (.delete key) = (s.web, .ok (.json (.bool false))) := by
      rw [IdbStore.apply, hdelete]
      rfl
    rcases h.readable.delete hk' hm with ⟨hdelete', -⟩ | ⟨t, y, -, hthere', -⟩
    · have hdesktop : s.desktop.apply (.delete key) = (s.desktop, .ok (.bool false)) := by
        rw [KvTable.apply, hdelete']
      rw [hweb, hdesktop]
      exact ⟨.unchanged (by rw [hweb]) (by rw [hdesktop]), Json.Same.refl _⟩
    · exact absurd (hnone.mp hgone) hthere'
  · have hweb : s.web.apply (.delete key) = (web, .ok (.json (.bool true))) := by
      rw [IdbStore.apply, hdelete]
      rfl
    rcases h.readable.delete hk' hm with ⟨-, hgone'⟩ | ⟨t, y, hdelete', -, hwrites', htakes', hy⟩
    · exact absurd (hnone.mpr hgone') hthere
    have hdesktop : s.desktop.apply (.delete key) = (t, .ok (.bool true)) := by
      rw [KvTable.apply, hdelete']
    refine ⟨.written k x y hk htop (by rw [hweb]; exact hwrites) (by rw [hdesktop]; exact hwrites')
      (htakes.alike (h.alike k.top htop) htakes') hy htakes.outside htakes'.outside, ?_⟩
    rw [hweb, hdesktop]
    exact Json.Same.refl _

theorem InStep.outcome (h : s.InStep) (hop : s.Plain op) :
    s.Outcome op ∧ Agree (s.web.apply op).2 (s.desktop.apply op).2 := by
  have heq := hop.splitKey_eq
  cases hk : Idb.splitKey op.key with
  | error e =>
    have hweb := IdbStore.apply_error (s := s.web) hk
    have hdesktop := KvTable.apply_error (t := s.desktop) (heq.trans hk)
    rw [hweb, hdesktop]
    exact ⟨.unchanged (by rw [hweb]) (by rw [hdesktop]), rfl⟩
  | ok k =>
    by_cases hm : k.top = "messages"
    · have hweb := IdbStore.apply_messages (s := s.web) hk hm
      have hdesktop := KvTable.apply_messages (t := s.desktop) (heq.trans hk) hm
      rw [hweb, hdesktop]
      exact ⟨.unchanged (by rw [hweb]) (by rw [hdesktop]), agree_of_same⟩
    have hat := hop.at hk hm
    cases op with
    | get key defaultValue => exact h.get hat hk (heq.trans hk) hm
    | set key value => exact h.set hat hk (heq.trans hk) hm
    | delete key => exact h.delete hat hk (heq.trans hk) hm

theorem InStep.next (h : s.InStep) (hop : s.Plain op) : (s.next op).InStep := by
  cases (h.outcome hop).1 with
  | unchanged hweb hdesktop =>
    rw [Stores.next, hweb, hdesktop]
    exact h
  | written k x y _ htop hweb hdesktop hxy hy _ _ => exact h.write htop hweb hdesktop hxy hy

/-! ### The laws of the keys -/

theorem InStep.web_get_set (h : s.InStep) (hop : s.Plain (.set key value))
    (hset : (s.web.set key value).2 = .ok true) :
    ((s.web.set key value).1.get key defaultValue).2 = .ok (.json value) := by
  cases hk : Idb.splitKey key with
  | error e =>
    rw [IdbStore.set, hk] at hset
    cases hset
  | ok k =>
    have hm : k.top ≠ "messages" := fun hm => by
      rw [IdbStore.set, hk] at hset
      dsimp only at hset
      rw [if_pos hm] at hset
      cases hset
    have hfits : jsonBytes value ≤ maxStoreValueBytes := by
      by_contra hlarge
      rw [IdbStore.set_tooLarge hk hm (Nat.lt_of_not_le hlarge)] at hset
      cases hset
    obtain ⟨htop, hturn, -⟩ := hop.at hk hm
    have hwrites := h.settled.kvPutRaw htop hturn
    have hvalue : below ((s.web.kvPutRaw k.top (s.web.next k value)).top k.top) k.path = some value := by
      rw [hwrites.here]
      exact s.web.next_puts.at_path
    have hinherits := inherits_of_below fun hnone =>
      Option.some_ne_none value (hvalue.symm.trans hnone)
    rw [h.settled.set hk hm hfits]
    rw [hwrites.settled.get hk hm hinherits, hvalue]
    rfl

theorem InStep.desktop_get_set (h : s.InStep) (hop : s.Plain (.set key value)) {t : KvTable}
    (hset : s.desktop.set key value = .ok (t, true)) : t.get key defaultValue = .ok value := by
  have happly : s.desktop.apply (.set key value) = (t, .ok (.bool true)) := by
    rw [KvTable.apply, hset]
  have hreadable : t.Readable := by
    have hnext : (s.desktop.apply (.set key value)).1.Readable := (h.next hop).readable
    rwa [happly] at hnext
  cases hk : Database.splitKey key with
  | error e =>
    have herror : s.desktop.apply (.set key value) = (s.desktop, .error e) := KvTable.apply_error hk
    cases herror.symm.trans happly
  | ok k =>
    have hm : k.top ≠ "messages" := fun hm => by
      cases (KvTable.set_messages hk hm).symm.trans hset
    rw [KvTable.set_eq hk hm (h.readable.loadTop k.top)] at hset
    split at hset
    · cases hset
    have hrow : t.rows.lookup k.top = some (s.desktop.next k value) := by
      cases hset
      rw [lookup_setField, if_pos rfl]
    rw [hreadable.get hk hm, hrow, below_some, s.desktop.next_puts.at_path]
    rfl

theorem InStep.web_get_other (h : s.InStep) (hop : s.Plain op) (hapart : Apart op.key key)
    (hget : s.Plain (.get key defaultValue)) (hget' : (s.next op).Plain (.get key defaultValue)) :
    ((s.web.apply op).1.get key defaultValue).2 = (s.web.get key defaultValue).2 := by
  cases (h.outcome hop).1 with
  | unchanged hweb _ => rw [hweb]
  | written k x y hk htop hweb _ _ _ hother _ =>
    cases hk' : Idb.splitKey key with
    | error e => rw [IdbStore.get, IdbStore.get, hk']
    | ok k' =>
      by_cases hm : k'.top = "messages"
      · rw [IdbStore.get, IdbStore.get, hk']
        dsimp only
        rw [if_pos hm, if_pos hm]
      obtain ⟨hactive, hinherits⟩ := hget.at hk' hm
      obtain ⟨hactive', hinherits'⟩ := hget'.at hk' hm
      have hsame : below ((s.web.apply op).1.top k'.top) k'.path =
          below (s.web.top k'.top) k'.path := by
        by_cases heq : k'.top = k.top
        · have hpath := (unrelated_cons.mp (hapart k k' hk hk')).resolve_left fun hne =>
            hne heq.symm
          rw [heq, hweb.here, hother _ hpath]
        by_cases htop' : k'.top = "activePeerId"
        · rw [hactive htop']
          exact congrArg (below · k'.path) (hactive' htop')
        · rw [hweb.others _ heq htop']
      rw [h.settled.get hk' hm hinherits, hweb.settled.get hk' hm hinherits', hsame]

theorem InStep.desktop_get_other (h : s.InStep) (hop : s.Plain op) (hapart : Apart op.key key) :
    (s.desktop.apply op).1.get key defaultValue = s.desktop.get key defaultValue := by
  have hreadable : (s.desktop.apply op).1.Readable := (h.next hop).readable
  cases (h.outcome hop).1 with
  | unchanged _ hdesktop => rw [hdesktop]
  | written k x y hk _ _ hdesktop _ _ _ hother =>
    cases hk' : Database.splitKey key with
    | error e => rw [KvTable.get, KvTable.get, hk']; rfl
    | ok k' =>
      by_cases hm : k'.top = "messages"
      · rw [KvTable.get_messages hk' hm, KvTable.get_messages hk' hm]
      have hsame : below ((s.desktop.apply op).1.rows.lookup k'.top) k'.path =
          below (s.desktop.rows.lookup k'.top) k'.path := by
        rw [hdesktop]
        split
        · next heq =>
          have hpath := (unrelated_cons.mp
            (hapart k k' hk (Idb.splitKey_of_desktop hk'))).resolve_left fun hne => hne heq.symm
          rw [hother _ hpath, heq]
        · rfl
      rw [hreadable.get hk' hm, h.readable.get hk' hm, hsame]

theorem InStep.lensLaws (h : s.InStep) : s.LensLaws where
  web_get_set _ _ _ := h.web_get_set
  desktop_get_set _ _ _ _ hop hset := h.desktop_get_set hop hset
  web_get_other _ _ _ := h.web_get_other
  desktop_get_other _ _ _ := h.desktop_get_other

/-! ### Whole sequences -/

theorem InStep.run {ops : List StoreOp} (h : s.InStep) (hrun : s.PlainRun ops) :
    (s.run ops).InStep := by
  induction ops generalizing s with
  | nil => exact h
  | cons op ops ih => exact ih (h.next hrun.1) hrun.2

theorem InStep.answers {ops : List StoreOp} (h : s.InStep) (hrun : s.PlainRun ops) :
    ∀ a ∈ s.answers ops, Agree a.1 a.2 := by
  induction ops generalizing s with
  | nil => exact nofun
  | cons op ops ih =>
    intro a ha
    rcases List.mem_cons.mp ha with rfl | ha
    · exact (h.outcome hrun.1).2
    · exact ih (h.next hrun.1) hrun.2 a ha

/-- In a sequence of plain operations the stores answer alike, and obey the laws of the keys wherever
it leads. -/
theorem equivalent_of_plainRun {ops : List StoreOp} (h : PlainRun {} ops) :
    (∀ a ∈ answers {} ops, Agree a.1 a.2) ∧ (run {} ops).LensLaws :=
  ⟨inStep_empty.answers h, (inStep_empty.run h).lensLaws⟩

/-- Contacts are stored and changed while an account is opened. -/
theorem equivalent_of_plainRun_sample :
    let ops := [.set "contacts.alice.name" (.str "Alice"),
      .set "cloudAccount" (.obj [("peerId", .str "p1")]),
      .set "contacts.bob" (.obj [("name", .str "Bob"), ("tags", .arr [])]),
      .get "contacts.bob.name" .null, .delete "contacts.alice.name", .get "contacts" .null,
      .set "messages.x" .null]
    (∀ a ∈ answers {} ops, Agree a.1 a.2) ∧ (run {} ops).LensLaws :=
  equivalent_of_plainRun (by decide +kernel)

/-- The browser finds in an empty object what every object inherits. -/
theorem answers_differ_inherited :
    (∀ key ∈ ["a", "a.toString"], ∃ k, Idb.splitKey key = .ok k ∧ Database.splitKey key = .ok k) ∧
      ¬ ∀ a ∈ answers {} [.set "a" (.obj []), .get "a.toString" .null], Agree a.1 a.2 := by
  constructor
  · intro key hkey
    rcases List.mem_pair.mp hkey with rfl | rfl
    · exact ⟨⟨"a", []⟩, by decide +kernel⟩
    · exact ⟨⟨"a", ["toString"]⟩, by decide +kernel⟩
  intro h
  have hanswer : (.ok (.function "toString"), .ok .null) ∈
      answers {} [.set "a" (.obj []), .get "a.toString" .null] := by decide +kernel
  exact h _ hanswer

end Stores
end Bluetalk.Storage

import Bluetalk.Storage.NestedValues
import Bluetalk.Storage.IdbAccounts

/-!
# What the operations do

For each store one lemma per operation: what it answers and what is read afterwards, in terms of what
is read before.
-/

open List

namespace Bluetalk.Storage
open Reader

/-! ### Keys -/

/-- The key is as good in the one store as in the other. -/
def KeyAgrees (key : String) : Prop :=
  key.utf8ByteSize ≤ maxKeyLength ∨ maxKeyLength < utf16Length key

instance {key : String} : Decidable (KeyAgrees key) := inferInstanceAs (Decidable (_ ∨ _))

variable {key : String} {k : StoreKey}

theorem KeyAgrees.splitKey_eq (h : KeyAgrees key) : Database.splitKey key = Idb.splitKey key := by
  have hle := utf16Length_le key
  have hiff : maxKeyLength < key.utf8ByteSize ↔ maxKeyLength < utf16Length key := by
    rcases h with h | h <;> omega
  simp only [Database.splitKey, Idb.splitKey, splitKeyOf, hiff]

theorem Idb.splitKey_of_desktop (h : Database.splitKey key = .ok k) : Idb.splitKey key = .ok k := by
  have hagrees : KeyAgrees key := by
    left
    by_contra hlong
    have hrefused : Database.splitKey key = .error (.invalidInput "invalid store key") :=
      if_pos (.inr (.inl (Nat.lt_of_not_le hlong)))
    rw [hrefused] at h
    cases h
  rw [← hagrees.splitKey_eq, h]

/-- What both stores answer about the key `messages`, which they keep elsewhere. -/
def StoreOp.messagesAnswer : StoreOp → Except StoreError Json
  | .get _ defaultValue => .ok defaultValue
  | .set _ _ =>
    .error (.invalidInput "messages must be changed through the paginated message API")
  | .delete _ => .error (.invalidInput "messages must be changed through the message API")

variable {op : StoreOp} {e : StoreError}

/-! ### In the browser -/

namespace IdbStore

variable {s s' : IdbStore} {value defaultValue : Json}

theorem apply_error (hk : Idb.splitKey op.key = .error e) : s.apply op = (s, .error e) := by
  cases op with
  | get key defaultValue =>
    rw [apply, IdbStore.get, show Idb.splitKey key = _ from hk]
  | set key value =>
    rw [apply, IdbStore.set, show Idb.splitKey key = _ from hk]
    rfl
  | delete key =>
    rw [apply, IdbStore.delete, show Idb.splitKey key = _ from hk]
    rfl

theorem apply_messages (hk : Idb.splitKey op.key = .ok k) (hm : k.top = "messages") :
    s.apply op = (s, op.messagesAnswer.map JsValue.json) := by
  cases op with
  | get key defaultValue =>
    rw [apply, IdbStore.get, show Idb.splitKey key = _ from hk]
    exact if_pos hm
  | set key value =>
    rw [apply, IdbStore.set, show Idb.splitKey key = _ from hk]
    dsimp only
    rw [if_pos hm]
    rfl
  | delete key =>
    rw [apply, IdbStore.delete, show Idb.splitKey key = _ from hk]
    dsimp only
    rw [if_pos hm]
    rfl

theorem Settled.get (h : s.Settled) (hk : Idb.splitKey key = .ok k) (hm : k.top ≠ "messages")
    (hinherits : inherits (s.top k.top) k.path = false) :
    s.get key defaultValue = (s, .ok (.json ((below (s.top k.top) k.path).getD defaultValue))) := by
  rw [IdbStore.get, hk]
  dsimp only
  rw [if_neg hm, h.kvGetRaw]
  cases htop : s.top k.top with
  | none => rfl
  | some top =>
    rw [htop] at hinherits
    dsimp only
    rw [Idb.walk_json top hinherits, below_some]
    cases top.atPath k.path <;> rfl

theorem set_tooLarge (hk : Idb.splitKey key = .ok k) (hm : k.top ≠ "messages")
    (hsize : maxStoreValueBytes < jsonBytes value) : s.set key value =
      (s, .error (.invalidInput "store value exceeds the 64 MiB limit")) := by
  have hlarge : ensureSize value maxStoreValueBytes "store value" =
    .error (.invalidInput "store value exceeds the 64 MiB limit") := if_pos hsize
  rw [IdbStore.set, hk]
  dsimp only
  rw [if_neg hm, hlarge]

/-- What a set writes for the first segment. -/
def next (s : IdbStore) (k : StoreKey) (value : Json) : Json :=
  Idb.setNested (.ofOption (s.top k.top)) k.path value

theorem Settled.set (h : s.Settled) (hk : Idb.splitKey key = .ok k) (hm : k.top ≠ "messages")
    (hsize : jsonBytes value ≤ maxStoreValueBytes) :
    s.set key value = (s.kvPutRaw k.top (s.next k value), .ok true) := by
  have hfits : ensureSize value maxStoreValueBytes "store value" = .ok () :=
    if_neg (Nat.not_lt.mpr hsize)
  rw [IdbStore.set, hk]
  dsimp only
  rw [if_neg hm, hfits, h.kvGetRaw, next]
  cases k.path with
  | nil | cons l path => rfl

theorem next_puts : Puts (below (s.top k.top)) (s.next k value).atPath k.path value := by
  have hputs : Puts (below (JsValue.ofOption (s.top k.top)).own) _ k.path value :=
    Idb.setNested_puts
  rw [JsValue.own_ofOption] at hputs
  exact hputs

/-- The delete of a row in use, and of no value that is only inherited. -/
def DeletesPlainly (s : IdbStore) (k : StoreKey) : Prop :=
  match k.path with
  | [] => s.db ≠ sessionDb → s.row sessionDb k.top = none
  | path => inherits (s.top k.top) path = false ∧
      ∀ next ∈ Idb.deleteNested (.ofOption (s.top k.top)) path, ¬ s.Turns k.top next

instance : Decidable (s.DeletesPlainly k) :=
  match k with
  | ⟨top, []⟩ => inferInstanceAs (Decidable (s.db ≠ sessionDb → s.row sessionDb top = none))
  | ⟨top, l :: path⟩ => inferInstanceAs (Decidable (inherits (s.top top) (l :: path) = false ∧
      ∀ next ∈ Idb.deleteNested (.ofOption (s.top top)) (l :: path), ¬ s.Turns top next))

theorem Settled.delete (h : s.Settled) (hk : Idb.splitKey key = .ok k) (hm : k.top ≠ "messages")
    (hactive : k.top = "activePeerId" → s.top k.top = none) (hplain : s.DeletesPlainly k) :
    (s.delete key = (s, .ok false) ∧ below (s.top k.top) k.path = none) ∨
    ∃ s' x, s.delete key = (s', .ok true) ∧ below (s.top k.top) k.path ≠ none ∧
      k.top ≠ "activePeerId" ∧ Writes s s' k.top x ∧ Takes (below (s.top k.top)) (below x) k.path := by
  obtain ⟨top, path⟩ := k
  rw [IdbStore.delete, hk]
  dsimp only at hm hactive ⊢
  rw [if_neg hm, h.kvGetRaw]
  cases htop : s.top top with
  | none => exact .inl ⟨rfl, rfl⟩
  | some x =>
    have hne : top ≠ "activePeerId" := fun heq => nomatch htop.symm.trans (hactive heq)
    cases path with
    | nil =>
      have hrow : s.db ≠ sessionDb → s.row sessionDb top = none := hplain
      refine .inr ⟨_, none, rfl, ?_, hne, h.kvDeleteRaw hrow, Takes.whole⟩
      exact nofun
    | cons l path =>
      obtain ⟨hinherits, hturn⟩ : inherits (s.top top) (l :: path) = false ∧
        ∀ next ∈ Idb.deleteNested (.ofOption (s.top top)) (l :: path), ¬ s.Turns top next := hplain
      rw [htop] at hinherits hturn
      have hdeletes := Idb.deleteNested_deletes (.json x) (cons_ne_nil l path)
      dsimp only
      cases hnext : Idb.deleteNested (.json x) (l :: path) with
      | none =>
        rw [hnext] at hdeletes
        exact .inl ⟨rfl, hdeletes⟩
      | some next =>
        rw [hnext] at hdeletes
        have hthere := Idb.below_of_deleteNested (.json x) hinherits hnext
        exact .inr ⟨_, some next, rfl, hthere, hne, h.kvPutRaw hne (hturn next hnext), hdeletes⟩

end IdbStore

/-! ### On the desktop -/

namespace KvTable

variable {t t' : KvTable} {value defaultValue : Json} {top : String}

theorem apply_error (hk : Database.splitKey op.key = .error e) : t.apply op = (t, .error e) := by
  cases op with
  | get key defaultValue =>
    rw [apply, KvTable.get, show Database.splitKey key = _ from hk]
    rfl
  | set key value =>
    rw [apply, KvTable.set, show Database.splitKey key = _ from hk]
    rfl
  | delete key =>
    rw [apply, KvTable.delete, show Database.splitKey key = _ from hk]
    rfl

theorem get_messages (hk : Database.splitKey key = .ok k) (hm : k.top = "messages") :
    t.get key defaultValue = .ok defaultValue := by
  rw [KvTable.get, hk]
  exact if_pos hm

theorem set_messages (hk : Database.splitKey key = .ok k) (hm : k.top = "messages") :
    t.set key value =
      .error (.invalidInput "messages must be changed through the paginated message API") := by
  rw [KvTable.set, hk]
  exact if_pos hm

theorem apply_messages (hk : Database.splitKey op.key = .ok k) (hm : k.top = "messages") :
    t.apply op = (t, op.messagesAnswer) := by
  cases op with
  | get key defaultValue =>
    rw [apply, get_messages (show Database.splitKey key = _ from hk) hm]
    rfl
  | set key value =>
    rw [apply, set_messages (show Database.splitKey key = _ from hk) hm]
    rfl
  | delete key =>
    have hdelete : t.delete key =
        .error (.invalidInput "messages must be changed through the message API") := by
      rw [KvTable.delete, show Database.splitKey key = _ from hk]
      exact if_pos hm
    rw [apply, hdelete]
    rfl

/-- `t'` is `t` but for the row of `key`. -/
def Writes (t t' : KvTable) (key : String) (x : Option Json) : Prop :=
  ∀ key', t'.rows.lookup key' = if key' = key then x else t.rows.lookup key'

/-- Every row can be read, and was small enough to be written. -/
def Readable (t : KvTable) : Prop := ∀ key x, t.rows.lookup key = some x →
  x.depth ≤ Database.maxDepth ∧ jsonBytes x ≤ maxStoreValueBytes

theorem Readable.loadTop (h : t.Readable) (top : String) : t.loadTop top = .ok (t.rows.lookup top) := by
  rw [KvTable.loadTop]
  cases htop : t.rows.lookup top with
  | none => rfl
  | some value => exact if_neg (Nat.not_lt.mpr (h top value htop).1)

theorem Readable.get (h : t.Readable) (hk : Database.splitKey key = .ok k)
    (hm : k.top ≠ "messages") :
    t.get key defaultValue = .ok ((below (t.rows.lookup k.top) k.path).getD defaultValue) := by
  have hload := h.loadTop k.top
  rw [KvTable.get, hk]
  refine (if_neg hm).trans ?_
  rw [hload]
  cases t.rows.lookup k.top with
  | none => rfl
  | some value => exact congrArg _ (congrArg (Option.getD · defaultValue) (Database.walk_eq value))

/-- What a set writes for the first segment. -/
def next (t : KvTable) (k : StoreKey) (value : Json) : Json :=
  Database.setNested (((t.rows.lookup k.top).filter fun x => x matches .obj _).getD (.obj [])) k.path
    value

theorem next_puts : Puts (below (t.rows.lookup k.top)) (t.next k value).atPath k.path value := by
  apply Puts.congr Database.setNested_puts
  intro q hq
  rw [Database.below_getD_obj hq]
  cases t.rows.lookup k.top with
  | none => rfl
  | some x =>
    cases q with
    | nil => exact absurd rfl hq
    | cons l q => cases x <;> rfl

theorem set_eq (hk : Database.splitKey key = .ok k) (hm : k.top ≠ "messages")
    (hload : t.loadTop k.top = .ok (t.rows.lookup k.top)) :
    t.set key value = if maxStoreValueBytes < jsonBytes (t.next k value)
      then .error (.invalidInput "store value exceeds the 64 MiB limit")
      else .ok (⟨setField k.top (t.next k value) t.rows⟩, true) := by
  have hset : t.set key value = (t.writeTop k.top (t.next k value)).bind fun t => .ok (t, true) := by
    obtain ⟨top, path⟩ := k
    rw [KvTable.set, hk]
    cases path with
    | nil => exact if_neg hm
    | cons l path =>
      refine (if_neg hm).trans ?_
      rw [hload]
      rfl
  rw [hset, writeTop, ensureSizeOf]
  split <;> rfl

theorem delete_nested {path : List String} (hpath : path ≠ [])
    (hk : Database.splitKey key = .ok ⟨top, path⟩) (hm : top ≠ "messages")
    (hload : t.loadTop top = .ok (t.rows.lookup top)) :
    t.delete key = match t.rows.lookup top with
      | none => .ok (t, false)
      | some root => match Database.deleteNested root path with
        | none => .ok (t, false)
        | some next => (t.writeTop top next).bind fun t => .ok (t, true) := by
  cases path with
  | nil => exact absurd rfl hpath
  | cons l path =>
    rw [KvTable.delete, hk]
    refine (if_neg hm).trans ?_
    rw [hload]
    rfl

theorem writeTop_of_fits (hfits : jsonBytes value ≤ maxStoreValueBytes) :
    t.writeTop top value = .ok ⟨setField top value t.rows⟩ := by
  rw [writeTop, ensureSizeOf, if_neg (Nat.not_lt.mpr hfits)]
  rfl

theorem Readable.delete (h : t.Readable) (hk : Database.splitKey key = .ok k)
    (hm : k.top ≠ "messages") :
    (t.delete key = .ok (t, false) ∧ below (t.rows.lookup k.top) k.path = none) ∨
    ∃ t' x, t.delete key = .ok (t', true) ∧ below (t.rows.lookup k.top) k.path ≠ none ∧
      Writes t t' k.top x ∧ Takes (below (t.rows.lookup k.top)) (below x) k.path ∧
      ∀ y, x = some y → y.depth ≤ Database.maxDepth ∧ jsonBytes y ≤ maxStoreValueBytes := by
  obtain ⟨top, path⟩ := k
  cases path with
  | nil =>
    have hdelete : t.delete key =
        .ok (⟨eraseField top t.rows⟩, (t.rows.lookup top).isSome) := by
      rw [KvTable.delete, hk]
      exact if_neg hm
    rw [hdelete]
    cases htop : t.rows.lookup top with
    | none =>
      have hsame : eraseField top t.rows = t.rows := by
        apply filter_eq_self.mpr
        intro row hrow
        have hne := lookup_eq_none_iff.mp htop row hrow
        exact decide_eq_true (bne_iff_ne.mp hne).symm
      rw [hsame]
      exact .inl ⟨rfl, rfl⟩
    | some x =>
      refine .inr ⟨_, none, rfl, nofun, fun key' => lookup_eraseField top key' t.rows, ?_, nofun⟩
      exact Takes.whole
  | cons l path =>
    rw [delete_nested (cons_ne_nil l path) hk hm (h.loadTop top)]
    cases htop : t.rows.lookup top with
    | none => exact .inl ⟨rfl, rfl⟩
    | some root =>
      have hdeletes := Database.deleteNested_deletes root (cons_ne_nil l path)
      dsimp only
      cases hnext : Database.deleteNested root (l :: path) with
      | none =>
        rw [hnext] at hdeletes
        exact .inl ⟨rfl, hdeletes⟩
      | some next =>
        rw [hnext] at hdeletes
        obtain ⟨hthere, hsize⟩ := Database.below_of_deleteNested hnext
        have hroot := h top root htop
        have hfits : jsonBytes next ≤ maxStoreValueBytes := hsize.2.trans hroot.2
        dsimp only
        rw [writeTop_of_fits hfits]
        refine .inr ⟨_, some next, rfl, hthere, fun key' => lookup_setField top key' next t.rows,
          hdeletes, fun y hy => ?_⟩
        cases hy
        exact ⟨hsize.1.trans hroot.1, hfits⟩

end KvTable
end Bluetalk.Storage

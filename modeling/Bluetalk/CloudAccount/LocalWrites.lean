import Bluetalk.CloudAccount.Outbox
import Bluetalk.CloudAccount.PullRemote
import Bluetalk.Theory.Run

/-!
# Local writes

A write to a synced store key through `wrapWithSync` of `src/bridge/syncLayer.js`: the value is
stored and reported, and `enqueue` compares it with the snapshot of the last sync. The comparison
finds every entry that was changed since that sync, not only those of this write, and stamps all of
them with the time of the write.
-/

namespace Bluetalk.CloudAccount
open Storage

/-- `store.set(key, value)`, or `store.delete(key)` where there is no value. -/
structure LocalWrite where
  key : String
  value : Option Json
  now : Int

namespace Device

/-- The entries of a store key. -/
def entries (d : Device) (key : String) : JsObject Json :=
  entriesOfStore key ((d.store.get? key).getD .null)

def write (d : Device) (key : String) (value : Option Json) : Device :=
  { d with store := match value with
      | some value => d.store.set key value
      | none => d.store.erase key }

/-- The write and the `enqueue` it is reported to. -/
def localWrite (d : Device) (w : LocalWrite) : Device :=
  let d := d.write w.key w.value
  if w.key ∈ syncedStoreKeys then
    { d with
      outbox := enqueueStore d.outbox (d.syncMeta.snapshot w.key) w.key
        ((d.store.get? w.key).getD .null) w.now }
  else d

/-- The value of an entry, `none` when the entry does not exist. -/
def entry (d : Device) (key id : String) : Option Json := (d.entries key).get? id

/-- The write changes the entry. -/
def Changes (d : Device) (w : LocalWrite) (id : String) : Prop :=
  (d.write w.key w.value).entry w.key id ≠ d.entry w.key id

instance (d : Device) (w : LocalWrite) (id : String) : Decidable (d.Changes w id) :=
  inferInstanceAs (Decidable (_ ≠ _))

/-- The value that the write leaves differs from the snapshot of the entry. -/
def Unsynced (d : Device) (w : LocalWrite) (id : String) : Prop :=
  (d.write w.key w.value).entry w.key id ≠ d.syncMeta.entry w.key id

variable {d : Device} {w : LocalWrite} {c : Change} {key key' id : String} {value : Option Json}

theorem entry_fresh {backend : Backend} {origin : String} :
    (Device.fresh backend origin).entry key id = none := by
  have hnone : (entriesOfStore key .null).get? id = none := by
    simp only [entriesOfStore, objectFields, arrayItems]
    split
    · rfl
    split <;> rfl
  exact hnone

theorem entry_write_ne (h : key' ≠ key) : (d.write key value).entry key' id = d.entry key' id := by
  cases value <;> simp [entry, entries, write, h]


theorem nodup_localWrite (h : (d.outbox.map logicalKeyOf).Nodup) :
    ((d.localWrite w).outbox.map logicalKeyOf).Nodup := by
  simp only [localWrite]
  split
  · exact nodup_enqueueStore h
  · exact h

theorem mem_localWrite (hkey : w.key ∈ syncedStoreKeys) (h : (d.outbox.map logicalKeyOf).Nodup) :
    c ∈ (d.localWrite w).outbox ↔
      (∃ id, d.Unsynced w id ∧
        c = ⟨w.now, .storeEntry w.key id ((d.write w.key w.value).entry w.key id)⟩) ∨
      c ∈ d.outbox ∧ ∀ id, d.Unsynced w id → logicalKeyOf c ≠ storeEntryKey w.key id := by
  simp only [localWrite, hkey, if_true]
  exact mem_enqueueStore h

end Device

/-- A device and the times at which the entries of its synced keys were last changed. -/
structure WriteHistory where
  dev : Device
  lastChange : String → String → Int

def writeStep (s : WriteHistory) (w : LocalWrite) : Option WriteHistory :=
  some ⟨s.dev.localWrite w, fun key id =>
    if w.key ∈ syncedStoreKeys ∧ key = w.key ∧ s.dev.Changes w id then w.now
    else s.lastChange key id⟩

/-- Every pending change of an entry has the time of the last write that changed the entry. -/
def StampedByLastChange (s : WriteHistory) : Prop :=
  ∀ c ∈ s.dev.outbox, ∀ key id patch, c.body = .storeEntry key id patch → c.ts = s.lastChange key id

/-- What the write leaves unsynced is what it changed, or carries its time already; and it takes no
pending entry back to its snapshot. -/
def StampsWhatItChanges (s : WriteHistory) (w : LocalWrite) : Prop :=
  w.key ∈ syncedStoreKeys →
    (∀ id, s.dev.Unsynced w id → s.dev.Changes w id ∨ s.lastChange w.key id = w.now) ∧
    ∀ c ∈ s.dev.outbox, ∀ id patch, c.body = .storeEntry w.key id patch → s.dev.Changes w id →
      s.dev.Unsynced w id ∨ c.ts = w.now

variable {s s' : WriteHistory} {w : LocalWrite}

theorem writeStep_stamped_iff (hn : (s.dev.outbox.map logicalKeyOf).Nodup)
    (hs : StampedByLastChange s) (h : writeStep s w = some s') :
    StampedByLastChange s' ↔ StampsWhatItChanges s w := by
  cases h
  by_cases hkey : w.key ∈ syncedStoreKeys
  · simp only [StampedByLastChange, StampsWhatItChanges, hkey, true_and, forall_const,
      Device.mem_localWrite hkey hn]
    constructor
    · intro hall
      refine ⟨fun id hun => ?_, fun c hc id patch hbody hch => ?_⟩
      · have := hall _ (.inl ⟨id, hun, rfl⟩) w.key id _ rfl
        by_contra hno
        rw [not_or] at hno
        rw [if_neg fun h => hno.1 h.2] at this
        exact hno.2 this.symm
      by_contra hno
      rw [not_or] at hno
      have hrest : ∀ id', s.dev.Unsynced w id' → logicalKeyOf c ≠ storeEntryKey w.key id' := by
        intro id' hun' e
        rw [logicalKeyOf, hbody, logicalKey_storeEntry] at e
        have hid : id = id' := by simpa [storeEntryKey] using e
        exact hno.1 (hid ▸ hun')
      have := hall c (.inr ⟨hc, hrest⟩) w.key id patch hbody
      rw [if_pos ⟨rfl, hch⟩] at this
      exact hno.2 this
    · rintro ⟨hun, hpend⟩ c hc key id patch hbody
      rcases hc with ⟨id', hid', rfl⟩ | ⟨hc, hrest⟩
      · cases hbody
        split
        · rfl
        · next hch =>
          exact ((hun id hid').resolve_left fun h => hch ⟨rfl, h⟩).symm
      split
      · next hch =>
        obtain ⟨rfl, hch⟩ := hch
        refine (hpend c hc id patch hbody hch).resolve_left fun hid => hrest id hid ?_
        rw [logicalKeyOf, hbody, logicalKey_storeEntry]
      · exact hs c hc key id patch hbody
  · simp only [StampedByLastChange, StampsWhatItChanges, hkey, false_and, if_false, false_imp_iff,
      iff_true, Device.localWrite]
    exact hs

/-- Along any sequence of writes, every pending change carries the time of the last write that
changed its entry exactly when every write stamps what it changes. -/
theorem writes_stamped_iff {ws : List LocalWrite} (hn : (s.dev.outbox.map logicalKeyOf).Nodup)
    (hs : StampedByLastChange s) (h : FreeRun writeStep s ws s') :
    Always writeStep StampedByLastChange s ws ↔ Run writeStep StampsWhatItChanges s ws s' := by
  refine h.always_iff (I := fun s => (s.dev.outbox.map logicalKeyOf).Nodup) ?_ ?_ hn hs
  · intro s w s' hn h
    cases h
    exact Device.nodup_localWrite hn
  · intro s w s' hn hs h
    exact writeStep_stamped_iff hn hs h

/-- One setting written on a new device. -/
theorem writes_stamped_theme :
    let s : WriteHistory := ⟨.fresh .web "a", fun _ _ => 0⟩
    let ws : List LocalWrite := [⟨"settings", some (.obj [("theme", .str "dark")]), 10⟩]
    ∃ s', FreeRun writeStep s ws s' ∧
      (Always writeStep StampedByLastChange s ws ↔ Run writeStep StampsWhatItChanges s ws s') := by
  intro s ws
  have hrun : FreeRun writeStep s ws _ := .of_exec rfl
  exact ⟨_, hrun, writes_stamped_iff List.nodup_nil (fun c hc => by cases hc) hrun⟩

/-- The second write leaves the theme as it is, and raises its timestamp. -/
theorem writes_restamp_theme :
    ∃ s', FreeRun writeStep ⟨.fresh .web "a", fun _ _ => 0⟩
        [⟨"settings", some (.obj [("theme", .str "dark")]), 10⟩,
          ⟨"settings", some (.obj [("theme", .str "dark"), ("bio", .str "hi")]), 20⟩] s' ∧
      ⟨20, .storeEntry "settings" "theme" (some (.str "dark"))⟩ ∈ s'.dev.outbox ∧
      s'.lastChange "settings" "theme" = 10 :=
  ⟨_, .of_exec rfl, by decide, by decide⟩

end Bluetalk.CloudAccount

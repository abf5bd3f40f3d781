import Bluetalk.CloudAccount.SyncLogic

/-!
# The outbox

What the operations of the outbox do, in an outbox with one change for each logical key, and what
`enqueue` of `src/renderer/cloudAccount/syncEngine.js` puts into it for a store key: the difference
between the entries of the value and their snapshot.
-/

open List Option

namespace Bluetalk.CloudAccount

variable {key key' id id' : String} {box box' : List Change} {c x : Change} {body : ChangeBody}
  {snap : JsObject Json} {v : Json} {ts : Int}

/-- `enqueue` of a report that the value of `key` changed. -/
def enqueueStore (box : List Change) (snapshot : JsObject Json) (key : String) (current : Json)
    (ts : Int) : List Change :=
  (diffStoreEntries key current snapshot).foldl (fun box body => mergeOutbox box ⟨ts, body⟩ ts) box

/-! ## Logical keys -/

theorem storeEntryKey_inj (hk : ':' ∉ key.toList) (hk' : ':' ∉ key'.toList) :
    storeEntryKey key id = storeEntryKey key' id' ↔ key = key' ∧ id = id' := by
  constructor
  · intro h
    have h' : key.toList ++ ':' :: id.toList = key'.toList ++ ':' :: id'.toList := by
      have := congrArg String.toList h
      simpa [storeEntryKey] using this
    -- the key ends at the first colon
    have hcut : ∀ {s t : List Char}, ':' ∉ s → (s ++ ':' :: t).takeWhile (fun c => c ≠ ':') = s := by
      intro s t hs
      rw [takeWhile_append_of_pos fun c hc => by
        simp only [ne_eq, decide_eq_true_eq]; rintro rfl; exact hs hc]
      simp
    have hkey := (hcut hk).symm.trans ((congrArg _ h').trans (hcut hk'))
    obtain rfl := String.toList_inj.mp hkey
    exact ⟨rfl, by simpa [storeEntryKey] using h⟩
  · rintro ⟨rfl, rfl⟩; rfl

theorem not_mem_syncedStoreKey (h : key ∈ syncedStoreKeys) : ':' ∉ key.toList := by
  revert key
  decide

theorem logicalKey_storeEntry (patch : Option Json) :
    (ChangeBody.storeEntry key id patch).logicalKey = storeEntryKey key id := rfl

theorem storeEntryKey_ne_msg (rest : String) : storeEntryKey key id ≠ "msg:" ++ rest := by
  intro h
  have := congrArg (fun s => s.toList.head?) h
  simp [storeEntryKey] at this

/-! ## Differences -/

theorem mem_diffStoreEntries : body ∈ diffStoreEntries key v snap ↔
    ∃ id, (entriesOfStore key v).get? id ≠ snap.get? id ∧
      body = .storeEntry key id ((entriesOfStore key v).get? id) := by
  have hdiff : ∀ id, diffEntry key (entriesOfStore key v) snap id = some body ↔
      (entriesOfStore key v).get? id ≠ snap.get? id ∧
        body = .storeEntry key id ((entriesOfStore key v).get? id) := by
    intro id
    simp only [diffEntry]
    split
    · next h => simp [h]
    · next h => simp [h, eq_comm]
  simp only [diffStoreEntries, mem_filterMap, hdiff]
  constructor
  · rintro ⟨id, -, h⟩; exact ⟨id, h⟩
  rintro ⟨id, hne, h⟩
  refine ⟨id, ?_, hne, h⟩
  -- an id without a value on either side has no difference
  by_cases hid : id ∈ (entriesOfStore key v).keys
  · exact mem_append_left _ hid
  have hnone : (entriesOfStore key v).get? id = none := by
    by_contra hsome; exact hid (JsObject.mem_keys.mpr hsome)
  refine mem_append_right _ (mem_filter.mpr ⟨?_, by simpa using hid⟩)
  exact JsObject.mem_keys.mpr fun h => hne (hnone.trans h.symm)

theorem nodup_diffStoreEntries :
    ((diffStoreEntries key v snap).map ChangeBody.logicalKey).Nodup := by
  have hids : ((entriesOfStore key v).keys ++
      snap.keys.filter fun id => id ∉ (entriesOfStore key v).keys).Nodup := by
    refine nodup_append.mpr ⟨(entriesOfStore key v).nodup, snap.nodup.filter _, ?_⟩
    rintro id hid id' hid' rfl
    simp only [mem_filter, decide_eq_true_eq] at hid'
    exact hid'.2 hid
  simp only [diffStoreEntries, map_filterMap]
  refine List.Nodup.filterMap ?_ hids
  rintro id id' k hk hk'
  simp only [diffEntry, mem_def] at hk hk'
  split at hk <;> split at hk' <;> simp only [map_none, map_some, reduceCtorEq,
    Option.some.injEq] at hk hk'
  have := hk.trans hk'.symm
  simpa [logicalKey_storeEntry, storeEntryKey] using this

/-! ## What is in the outbox afterwards -/

theorem mergeOutbox_storeEntry (patch : Option Json) :
    mergeOutbox box ⟨ts, .storeEntry key id patch⟩ ts =
      put logicalKeyOf ⟨ts, .storeEntry key id patch⟩ box := by
  simp [mergeOutbox, putChange]

theorem enqueueStore_eq : enqueueStore box snap key v ts =
    putAll logicalKeyOf ((diffStoreEntries key v snap).map fun body => ⟨ts, body⟩) box := by
  have hbody : ∀ body ∈ diffStoreEntries key v snap, ∃ id patch, body = .storeEntry key id patch :=
    fun body h => (mem_diffStoreEntries.mp h).imp fun _ h => ⟨_, h.2⟩
  simp only [enqueueStore, putAll]
  generalize diffStoreEntries key v snap = bodies at hbody ⊢
  induction bodies generalizing box with
  | nil => rfl
  | cons body bodies ih =>
    obtain ⟨id, patch, rfl⟩ := hbody body (mem_cons_self ..)
    simp only [foldl_cons, map_cons, mergeOutbox_storeEntry]
    exact ih fun body h => hbody body (mem_cons_of_mem _ h)

theorem nodup_enqueueStore (h : (box.map logicalKeyOf).Nodup) :
    ((enqueueStore box snap key v ts).map logicalKeyOf).Nodup := by
  rw [enqueueStore_eq]
  exact nodup_putAll h

theorem mem_enqueueStore (h : (box.map logicalKeyOf).Nodup) :
    c ∈ enqueueStore box snap key v ts ↔
      (∃ id, (entriesOfStore key v).get? id ≠ snap.get? id ∧
        c = ⟨ts, .storeEntry key id ((entriesOfStore key v).get? id)⟩) ∨
      c ∈ box ∧ ∀ id, (entriesOfStore key v).get? id ≠ snap.get? id →
        logicalKeyOf c ≠ storeEntryKey key id := by
  rw [enqueueStore_eq, mem_putAll h]
  · refine or_congr ?_ (and_congr_right fun _ => ?_)
    · simp only [List.mem_map, mem_diffStoreEntries]
      constructor
      · rintro ⟨_, ⟨id, hne, rfl⟩, rfl⟩; exact ⟨id, hne, rfl⟩
      · rintro ⟨id, hne, rfl⟩; exact ⟨_, ⟨id, hne, rfl⟩, rfl⟩
    · simp only [List.map_map, List.mem_map, mem_diffStoreEntries, not_exists, not_and]
      constructor
      · intro hno id hne e; exact hno _ ⟨id, hne, rfl⟩ e.symm
      · rintro hno _ ⟨id, hne, rfl⟩ e; exact hno id hne e.symm
  · rw [List.map_map]; exact nodup_diffStoreEntries

def isMessageChange : ChangeBody → Bool
  | .chatDel _ | .msgDel .. | .msg .. => true
  | .storeEntry .. | .store _ => false

variable (ts) in
/-- A new change to messages leaves every change of a store entry in the outbox. -/
theorem mem_mergeOutbox_message (hbody : isMessageChange body = true) :
    ∃ keeps : Change → Prop, (∀ c key id patch, c.body = .storeEntry key id patch → keeps c) ∧
      ∀ box c, (box.map logicalKeyOf).Nodup →
        (c ∈ mergeOutbox box ⟨0, body⟩ ts ↔ c = ⟨ts, body⟩ ∨ c ∈ box ∧ keeps c) := by
  -- a change of a store entry has another logical key
  have hkey : ∀ c key id patch (rest : String), c.body = .storeEntry key id patch →
      logicalKeyOf c ≠ "msg:" ++ rest := by
    intro c key id patch rest h
    rw [logicalKeyOf, h]
    exact storeEntryKey_ne_msg rest
  cases body with
  | storeEntry | store => cases hbody
  | chatDel peerId =>
    refine ⟨fun c => keptByChatDel peerId c, fun c key id patch h => by simp [keptByChatDel, h], ?_⟩
    intro box c _
    simp [mergeOutbox, or_comm]
  | msgDel peerId messageId =>
    refine ⟨fun c => keptByMsgDel peerId messageId c ∧
      logicalKeyOf c ≠ "msg:" ++ peerId ++ ":" ++ messageId, fun c key id patch h => ?_, ?_⟩
    · exact ⟨by simp [keptByMsgDel, h], by
        simpa only [String.append_assoc] using hkey c key id patch (peerId ++ ":" ++ messageId) h⟩
    intro box c h
    simp only [mergeOutbox, putChange, Int.lt_irrefl, if_false]
    rw [mem_put (h.sublist (filter_sublist.map _)), mem_filter, and_assoc]
    rfl
  | msg peerId messageId message =>
    refine ⟨fun c => logicalKeyOf c ≠ "msg:" ++ peerId ++ ":" ++ messageId,
      fun c key id patch h => ?_, ?_⟩
    · simpa only [String.append_assoc] using hkey c key id patch (peerId ++ ":" ++ messageId) h
    · intro box c h
      exact mem_put h

theorem nodup_mergeOutbox_message (hbody : isMessageChange body = true)
    (h : (box.map logicalKeyOf).Nodup) :
    ((mergeOutbox box ⟨0, body⟩ ts).map logicalKeyOf).Nodup := by
  cases body with
  | storeEntry | store => cases hbody
  | chatDel peerId =>
    simp only [mergeOutbox, map_append, map_cons, map_nil]
    refine nodup_append.mpr ⟨h.sublist (filter_sublist.map _), by simp, ?_⟩
    -- only the deletion of the same chat has its key, and that one was filtered out
    rintro k hk k' hk' rfl
    obtain ⟨⟨t, b⟩, hc, hk⟩ := mem_map.mp hk
    have hkey : b.logicalKey = "chat:" ++ peerId := hk.trans (mem_singleton.mp hk')
    have hkept := (mem_filter.mp hc).2
    have hhead := congrArg (fun s => s.toList.head?) hkey
    cases b with
    | chatDel p => simp [keptByChatDel, ChangeBody.logicalKey] at hkept hkey; exact hkept hkey
    | storeEntry | store | msgDel | msg =>
      simp [ChangeBody.logicalKey, storeEntryKey] at hhead
  | msgDel peerId messageId =>
    exact nodup_put (h.sublist (filter_sublist.map _))
  | msg peerId messageId message =>
    exact nodup_put h

theorem mem_removeSentFromOutbox {sent : List Change} : c ∈ removeSentFromOutbox box sent ↔
    c ∈ box ∧ ∀ x ∈ sent, logicalKeyOf x = logicalKeyOf c → x.ts ≠ c.ts := by
  simp [removeSentFromOutbox]

end Bluetalk.CloudAccount

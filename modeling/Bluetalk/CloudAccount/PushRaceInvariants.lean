import Bluetalk.CloudAccount.PushRace

/-!
# No write is lost when nothing disturbs a push

`Undisturbed` is what a step has to leave alone: the entries that a push has read and not yet
booked, the stamps of the changes it has taken from the outbox, and so on. Along a run of such steps
every entry stays accounted for (`Accounted`): it is as its snapshot says, or an `enqueue` on its way
will find it, or it is pending, or its push is about to be booked.
-/

open List

namespace Bluetalk.CloudAccount
open Storage Relay

variable {δ : Type}

namespace PushPhase

/-- The changes that were built and not yet booked. -/
def sent : PushPhase δ → List (SentChange δ)
  | .idle | .loop => []
  | .filling _ _ sent | .built _ _ _ _ sent | .sending sent | .readingMeta sent => sent
  | .splitting taken rest => taken ++ rest
  | .booking _ sent _ => sent

/-- The changes whose entries were read and not yet booked. -/
def inFlight : PushPhase δ → List Change
  | .built c op todo total sent => c :: (PushPhase.built c op todo total sent).sent.map (·.change)
  | p => p.sent.map (·.change)

/-- The changes that the push may still remove from the outbox. -/
def taken : PushPhase δ → List Change
  | .filling todo _ sent => sent.map (·.change) ++ todo
  | .built c _ todo _ sent => sent.map (·.change) ++ c :: todo
  | .sending sent => sent.map (·.change)
  | .splitting _ rest => rest.map (·.change)
  | _ => []

/-- The changes that the server has and the snapshot does not yet. -/
def unbooked : PushPhase δ → List (SentChange δ)
  | .splitting taken _ => taken
  | .readingMeta sent | .booking _ sent _ => sent
  | _ => []

end PushPhase

def EnqueueTask.key : EnqueueTask → String
  | .started key | .gotValue key _ | .gotMeta key _ _ => key

/-- The task enqueues the entry as it is, unless the snapshot already has it so. -/
def EnqueueTask.Covers (d : Device) (key id : String) : EnqueueTask → Prop
  | .started k => k = key
  | .gotValue k current => k = key ∧ (entriesOfStore k current).get? id = d.entry key id
  | .gotMeta k current snapshot => k = key ∧ (entriesOfStore k current).get? id = d.entry key id ∧
    (entriesOfStore k current).get? id ≠ snapshot.get? id

/-- Nothing about the entry is lost. -/
inductive Accounted (s : PushRace δ) (key id : String) : Prop
  | synced : s.dev.entry key id = s.dev.syncMeta.entry key id → Accounted s key id
  | enqueuing (t : EnqueueTask) : t ∈ s.tasks → t.Covers s.dev key id → Accounted s key id
  | pending (c : Change) (patch : Option Json) : c ∈ s.dev.outbox →
    c.body = .storeEntry key id patch → (patch = none ↔ s.dev.entry key id = none) →
    Accounted s key id
  | unbooked (x : SentChange δ) (patch : Option Json) : x ∈ s.phase.unbooked →
    x.change.body = .storeEntry key id patch → Accounted s key id

/-- What a step leaves alone. -/
def Undisturbed [Blob δ] (sealItem : String → Op → PushItem δ) (s : PushRace δ) : RaceAction → Prop
  -- no write to an entry that a push has read and not yet booked
  | .write key value => ∀ c ∈ s.phase.inFlight, ∀ id patch, c.body = .storeEntry key id patch →
    (s.dev.write key value).entry key id = s.dev.entry key id
  -- nothing is enqueued under the stamp of a change that the push has taken
  | .report body now => ∀ c ∈ s.phase.taken, logicalKeyOf c = body.logicalKey → c.ts ≠ now
  | .enqueue task now =>
    match task with
    | .gotMeta key current snapshot =>
      ∀ id, (entriesOfStore key current).get? id ≠ snapshot.get? id →
        (∀ c ∈ s.phase.taken, logicalKeyOf c = storeEntryKey key id → c.ts ≠ now) ∧
        -- a value that is out of date is not the last one to be enqueued
        ((entriesOfStore key current).get? id = s.dev.entry key id ∨
          ∃ t ∈ s.tasks.erase task, t.Covers s.dev key id)
    | _ => True
  | .push _ _ =>
    match s.phase with
    | .filling (c :: _) _ sent =>
      -- no deletion is pushed for an entry that is back, and no `null` for another value
      sent.length < pushBatch → ∀ key id patch, c.body = .storeEntry key id patch →
        (patch = none → s.dev.entry key id = none) ∧
        (s.dev.entry key id = some .null → patch = some .null)
    | .built c (some op) _ _ sent =>
      -- nothing is dropped for its size
      ∃ item, sealWithinLimit sealItem (logicalKeyOf c) op = some item ∧
        (fits (sent.map (·.item)) item = true ∨ sent ≠ [])
    | _ => True
  | .reply reply =>
    match s.phase, reply with
    | .sending [_], .tooLarge | .splitting _ _, .tooLarge => False
    -- a push does not fail halfway
    | .splitting taken _, .failed _ => taken = []
    | _, _ => True
  | .start | .stop => True

/-- The operation carries the entry as it is. -/
def BuiltFor (d : Device) (c : Change) (op : Op) : Prop :=
  ∀ key id patch, c.body = .storeEntry key id patch →
    op.body = .storeEntry key id (d.entry key id) ∧ (patch = none ↔ d.entry key id = none) ∧
      (d.entry key id = some .null → patch = some .null)

/-- The metadata that a push is about to write, some of its changes booked. -/
structure Booking (d : Device) (rest sent : List (SentChange δ)) (next : SyncMeta) : Prop where
  subset : ∀ x ∈ rest, x ∈ sent
  booked : ∀ x ∈ sent, x ∉ rest → ∀ key id patch, x.change.body = .storeEntry key id patch →
    key ≠ "" → id ≠ "" → next.entry key id = d.entry key id
  other : ∀ key id, next.entry key id = d.syncMeta.entry key id ∨
    next.entry key id = d.entry key id ∧
      ∃ x ∈ sent, ∃ patch, x.change.body = .storeEntry key id patch

/-- What holds of the phase beside the changes it carries. -/
def PhaseOk (d : Device) : PushPhase δ → Prop
  | .built c none _ _ _ => ∀ key id patch, c.body = .storeEntry key id patch →
    patch ≠ none ∧ d.entry key id = none
  | .built c (some op) _ _ _ => BuiltFor d c op
  | .booking rest sent next => Booking d rest sent next
  | _ => True

/-- The invariant of the machine; `base` is the metadata of the start. -/
structure RaceInv (base : SyncMeta) (s : PushRace δ) : Prop where
  nodup : (s.dev.outbox.map logicalKeyOf).Nodup
  freshNodup : (s.fresh.map logicalKeyOf).Nodup
  tasks : ∀ t ∈ s.tasks, t.key ∈ syncedStoreKeys
  fresh : ∀ c ∈ s.fresh, c ∈ s.dev.outbox
  freshKept : ∀ c ∈ s.fresh, ∀ t ∈ s.phase.taken, logicalKeyOf c = logicalKeyOf t → c.ts ≠ t.ts
  taken : ∀ c ∈ s.dev.outbox, ∀ t ∈ s.phase.taken, logicalKeyOf c = logicalKeyOf t → c.ts = t.ts →
    c = t
  sent : ∀ x ∈ s.phase.sent, BuiltFor s.dev x.change x.op
  phase : PhaseOk s.dev s.phase
  accounted : ∀ key ∈ syncedStoreKeys, ∀ id, id ≠ "" → Accounted s key id
  known : ∀ key id, s.dev.syncMeta.entry key id = base.entry key id ∨
    (key, id, s.dev.syncMeta.entry key id) ∈ s.acked
  acked : ∀ x ∈ s.phase.unbooked, ∀ key id patch, x.change.body = .storeEntry key id patch →
    (key, id, s.dev.entry key id) ∈ s.acked

/-! ## Small facts -/

section
variable {base : SyncMeta} {s s' : PushRace δ} {d : Device} {m : SyncMeta} {key id key' id' : String}
  {c : Change} {op : Op} {patch : Option Json} {p : PushPhase δ} {x : SentChange δ} {d' : Device}
  {now : Int} {task : EnqueueTask} {total : Nat} {sent rest : List (SentChange δ)}
  {findMessage : String → String → Option Message} {next : SyncMeta}
  {sealItem : String → Op → PushItem δ}

theorem PushPhase.mem_sent_of_unbooked (h : x ∈ p.unbooked) : x ∈ p.sent := by
  cases p with
  | splitting taken rest => exact mem_append_left _ h
  | readingMeta | booking => exact h
  | _ => cases h

theorem PushPhase.mem_inFlight_of_sent (h : x ∈ p.sent) :
    x.change ∈ p.inFlight := by
  have hmem : x.change ∈ p.sent.map (·.change) := mem_map.mpr ⟨x, h, rfl⟩
  cases p with
  | built => exact mem_cons_of_mem _ hmem
  | _ => exact hmem

theorem appliedMetaAfterOp_entry {ts : Int} {origin : String} (hkey : key ≠ "") (hid : id ≠ "") :
    (appliedMetaAfterOp m ⟨ts, origin, .storeEntry key id patch⟩).entry key' id' =
      if key' = key ∧ id' = id then patch else m.entry key' id' := by
  simp only [appliedMetaAfterOp, hkey, hid, or_self, if_false, SyncMeta.entry, SyncMeta.snapshot,
    JsObject.get?_set, snapshotAfterEntry]
  by_cases hk : key' = key
  · subst hk
    cases patch <;> by_cases hi : id' = id <;> simp [hi]
  · simp [hk]

theorem book_entry (hb : BuiltFor d c op) (hc : c.body = .storeEntry key id patch)
    (hkey : key ≠ "") (hid : id ≠ "") :
    (book d m c).entry key' id' =
      if key' = key ∧ id' = id then d.entry key id else m.entry key' id' := by
  obtain ⟨-, hnone, hnull⟩ := hb key id patch hc
  have hval : patch.map (bookedValue d key id) = d.entry key id := by
    cases patch with
    | none => exact (hnone.mp rfl).symm
    | some value =>
      cases hd : d.entry key id with
      | none => exact absurd (hnone.mpr hd) (by simp)
      | some v =>
        simp only [Option.map_some, bookedValue, hd, Option.some.injEq]
        split
        · next hv =>
          subst hv
          exact Option.some.inj (hnull hd)
        · rfl
  simp only [book, hc, hval, appliedMetaAfterOp_entry hkey hid]

theorem book_eq_self (h : ∀ key id patch, c.body = .storeEntry key id patch → key = "" ∨ id = "") :
    book d m c = m := by
  simp only [book]
  split
  · next key id patch hc => simp [appliedMetaAfterOp, h key id patch hc]
  · rfl

theorem BuiltFor.congr (h : BuiltFor d c op)
    (he : ∀ key id patch, c.body = .storeEntry key id patch → d'.entry key id = d.entry key id) :
    BuiltFor d' c op := by
  intro key id patch hc
  rw [he key id patch hc]
  exact h key id patch hc

theorem PhaseOk.congr (h : PhaseOk d p)
    (hm : d'.syncMeta = d.syncMeta)
    (he : ∀ c ∈ p.inFlight, ∀ key id patch, c.body = .storeEntry key id patch →
      d'.entry key id = d.entry key id) : PhaseOk d' p := by
  cases p with
  | built c op todo total sent =>
    have hc := he c (mem_cons_self ..)
    cases op with
    | none =>
      intro key id patch hbody
      rw [hc key id patch hbody]
      exact h key id patch hbody
    | some op => exact BuiltFor.congr h hc
  | booking rest sent next =>
    have hx : ∀ x ∈ sent, ∀ key id patch, x.change.body = .storeEntry key id patch →
        d'.entry key id = d.entry key id :=
      fun x hx => he x.change (PushPhase.mem_inFlight_of_sent (p := .booking rest sent next) hx)
    refine ⟨h.subset, fun x hmem hrest key id patch hbody => ?_, fun key id => ?_⟩
    · rw [hx x hmem key id patch hbody]
      exact h.booked x hmem hrest key id patch hbody
    · rw [hm]
      refine (h.other key id).imp_right fun ⟨hnext, x, hmem, patch, hbody⟩ => ?_
      exact ⟨(hx x hmem key id patch hbody).symm ▸ hnext, x, hmem, patch, hbody⟩
  | _ => trivial

theorem RaceInv.mem_removeSent (H : RaceInv base s) (gone : List Change)
    (hgone : ∀ c ∈ gone, c ∈ s.phase.taken) :
    (∀ c ∈ s.dev.outbox, c ∈ removeSentFromOutbox s.dev.outbox gone ∨ c ∈ gone) ∧
      ∀ c ∈ s.fresh, c ∈ removeSentFromOutbox s.dev.outbox gone := by
  simp only [mem_removeSentFromOutbox]
  constructor
  · intro c hc
    by_cases hmark : ∃ x ∈ gone, logicalKeyOf x = logicalKeyOf c ∧ x.ts = c.ts
    · obtain ⟨x, hx, hkey, hts⟩ := hmark
      exact .inr (H.taken c hc x (hgone x hx) hkey.symm hts.symm ▸ hx)
    · refine .inl ⟨hc, fun x hx hkey hts => hmark ⟨x, hx, hkey, hts⟩⟩
  · intro c hc
    refine ⟨H.fresh c hc, fun x hx hkey hts => ?_⟩
    exact H.freshKept c hc x (hgone x hx) hkey.symm hts.symm

theorem RaceInv.advance (H : RaceInv base s)
    (hdev : s'.dev = { s.dev with outbox := s'.dev.outbox }) (htasks : s'.tasks = s.tasks)
    (hfresh : s'.fresh = s.fresh) (hbox : s'.dev.outbox.Sublist s.dev.outbox)
    (hkept : ∀ c ∈ s.fresh, c ∈ s'.dev.outbox)
    (htaken : ∀ t ∈ s'.phase.taken, t ∈ s.phase.taken)
    (hsent : ∀ x ∈ s'.phase.sent, BuiltFor s.dev x.change x.op) (hphase : PhaseOk s.dev s'.phase)
    (hunbooked : ∀ x ∈ s.phase.unbooked, x ∈ s'.phase.unbooked)
    (hgone : ∀ c ∈ s.dev.outbox, c ∈ s'.dev.outbox ∨ (∃ x ∈ s'.phase.unbooked, x.change = c) ∨
      ∀ key id patch, c.body = .storeEntry key id patch → ¬(patch = none ↔ s.dev.entry key id = none))
    (hacked : ∀ y ∈ s.acked, y ∈ s'.acked)
    (hnew : ∀ x ∈ s'.phase.unbooked, ∀ key id patch, x.change.body = .storeEntry key id patch →
      (key, id, s.dev.entry key id) ∈ s'.acked) : RaceInv base s' := by
  have hentry : s'.dev.entry = s.dev.entry := by rw [hdev]; rfl
  have hmeta : s'.dev.syncMeta = s.dev.syncMeta := by rw [hdev]
  have hcovers : ∀ t key id, EnqueueTask.Covers s'.dev key id t ↔ t.Covers s.dev key id := by
    intro t key id
    cases t <;> simp only [EnqueueTask.Covers, hentry]
  constructor
  · exact H.nodup.sublist (hbox.map _)
  · rw [hfresh]; exact H.freshNodup
  · rw [htasks]; exact H.tasks
  · rw [hfresh]; exact hkept
  · rw [hfresh]; exact fun c hc t ht => H.freshKept c hc t (htaken t ht)
  · exact fun c hc t ht => H.taken c (hbox.subset hc) t (htaken t ht)
  · intro x hx key id patch
    rw [hentry]
    exact hsent x hx key id patch
  · exact hphase.congr hmeta fun _ _ key id _ _ => by rw [hentry]
  · intro key hkey id hid
    cases H.accounted key hkey id hid with
    | synced h => exact .synced (by rw [hentry, hmeta]; exact h)
    | enqueuing t ht hcov => exact .enqueuing t (htasks ▸ ht) ((hcovers t key id).mpr hcov)
    | pending c patch hc hbody hflag =>
      rcases hgone c hc with hc' | ⟨x, hx, rfl⟩ | hdoomed
      · exact .pending c patch hc' hbody (by rw [hentry]; exact hflag)
      · exact .unbooked x patch hx hbody
      · exact absurd hflag (hdoomed key id patch hbody)
    | unbooked x patch hx hbody => exact .unbooked x patch (hunbooked x hx) hbody
  · intro key id
    rw [hmeta]
    exact (H.known key id).imp_right (hacked _)
  · intro x hx key id patch hbody
    rw [hentry]
    exact hnew x hx key id patch hbody

/-! ## Step by step -/

theorem RaceInv.write (H : RaceInv base s) {value : Option Json}
    (hok : ∀ c ∈ s.phase.inFlight, ∀ id patch, c.body = .storeEntry key id patch →
      (s.dev.write key value).entry key id = s.dev.entry key id) :
    RaceInv base { s with
      dev := s.dev.write key value
      tasks := if key ∈ syncedStoreKeys then .started key :: s.tasks else s.tasks } := by
  have hflight : ∀ c ∈ s.phase.inFlight, ∀ k id patch, c.body = .storeEntry k id patch →
      (s.dev.write key value).entry k id = s.dev.entry k id := by
    intro c hc k id patch hbody
    by_cases hk : k = key
    · subst hk; exact hok c hc id patch hbody
    · exact Device.entry_write_ne hk
  have hsent : ∀ x ∈ s.phase.sent, ∀ k id patch, x.change.body = .storeEntry k id patch →
      (s.dev.write key value).entry k id = s.dev.entry k id :=
    fun x hx => hflight x.change (PushPhase.mem_inFlight_of_sent hx)
  have htask : ∀ t ∈ s.tasks,
      t ∈ if key ∈ syncedStoreKeys then .started key :: s.tasks else s.tasks := by
    intro t ht
    split
    · exact mem_cons_of_mem _ ht
    · exact ht
  refine ⟨H.nodup, H.freshNodup, ?_, H.fresh, H.freshKept, H.taken,
    fun x hx => (H.sent x hx).congr (hsent x hx), H.phase.congr rfl hflight, ?_, H.known, ?_⟩
  · intro t ht
    split at ht
    · next hkey =>
      rcases mem_cons.mp ht with rfl | ht
      · exact hkey
      · exact H.tasks t ht
    · exact H.tasks t ht
  · intro k hk id hid
    by_cases hsame : (s.dev.write key value).entry k id = s.dev.entry k id
    · cases H.accounted k hk id hid with
      | synced h => exact .synced (hsame.trans h)
      | enqueuing t ht hcov =>
        refine .enqueuing t (htask t ht) ?_
        cases t <;> simpa only [EnqueueTask.Covers, hsame] using hcov
      | pending c patch hc hbody hflag =>
        exact .pending c patch hc hbody (by simpa only [hsame] using hflag)
      | unbooked x patch hx hbody => exact .unbooked x patch hx hbody
    · -- a changed entry will be found by the `enqueue` of this write
      obtain rfl : k = key := by
        by_contra hne
        exact hsame (Device.entry_write_ne hne)
      exact .enqueuing (.started k) (by simp [hk]) rfl
  · intro x hx k id patch hbody
    simp only [hsent x (PushPhase.mem_sent_of_unbooked hx) k id patch hbody]
    exact H.acked x hx k id patch hbody

theorem RaceInv.report (H : RaceInv base s) {body : ChangeBody} (hbody : isMessageChange body = true)
    (hok : ∀ c ∈ s.phase.taken, logicalKeyOf c = body.logicalKey → c.ts ≠ now) :
    RaceInv base { s with
      dev := { s.dev with outbox := mergeOutbox s.dev.outbox ⟨0, body⟩ now }
      fresh := mergeOutbox s.fresh ⟨0, body⟩ now } := by
  obtain ⟨keeps, hstore, hmem⟩ := mem_mergeOutbox_message now hbody
  refine ⟨nodup_mergeOutbox_message hbody H.nodup, nodup_mergeOutbox_message hbody H.freshNodup,
    H.tasks, ?_, ?_, ?_, H.sent, H.phase.congr rfl fun _ _ _ _ _ _ => rfl, ?_, H.known, H.acked⟩
  · intro c hc
    rw [hmem _ c H.freshNodup] at hc
    exact (hmem _ c H.nodup).mpr (hc.imp_right fun hc => ⟨H.fresh c hc.1, hc.2⟩)
  · intro c hc t ht hkey
    rw [hmem _ c H.freshNodup] at hc
    rcases hc with rfl | ⟨hc, -⟩
    · exact (hok t ht hkey.symm).symm
    · exact H.freshKept c hc t ht hkey
  · intro c hc t ht hkey hts
    rw [hmem _ c H.nodup] at hc
    rcases hc with rfl | ⟨hc, -⟩
    · exact absurd hts.symm (hok t ht hkey.symm)
    · exact H.taken c hc t ht hkey hts
  · intro key hkey id hid
    cases H.accounted key hkey id hid with
    | synced h => exact .synced h
    | enqueuing t ht hcov => exact .enqueuing t ht (by cases t <;> exact hcov)
    | pending c patch hc hc' hflag =>
      exact .pending c patch ((hmem _ c H.nodup).mpr (.inr ⟨hc, hstore c key id patch hc'⟩)) hc' hflag
    | unbooked x patch hx hc => exact .unbooked x patch hx hc

theorem mem_tasks_erase {tasks : List EnqueueTask} {t : EnqueueTask} (task : EnqueueTask) (h : t ∈ tasks) :
    t = task ∨ t ∈ tasks.erase task := by
  by_cases he : t = task
  · exact .inl he
  · exact .inr ((mem_erase_of_ne he).mpr h)

theorem RaceInv.enqueue_read (H : RaceInv base s) {next : EnqueueTask} (htask : task ∈ s.tasks)
    (hkey : next.key = task.key)
    (hnext : ∀ key id, task.Covers s.dev key id →
      next.Covers s.dev key id ∨ s.dev.entry key id = s.dev.syncMeta.entry key id) :
    RaceInv base { s with tasks := next :: s.tasks.erase task } := by
  refine { H with tasks := fun t ht => ?_, accounted := fun key hk id hid => ?_ }
  · rcases mem_cons.mp ht with rfl | ht
    · rw [hkey]; exact H.tasks task htask
    · exact H.tasks t (mem_of_mem_erase ht)
  cases H.accounted key hk id hid with
  | synced h => exact .synced h
  | enqueuing t ht hcov =>
    rcases mem_tasks_erase task ht with rfl | ht
    · rcases hnext key id hcov with hcov | h
      · exact .enqueuing next (mem_cons_self ..) hcov
      · exact .synced h
    · exact .enqueuing t (mem_cons_of_mem _ ht) hcov
  | pending c patch hc hbody hflag => exact .pending c patch hc hbody hflag
  | unbooked x patch hx hbody => exact .unbooked x patch hx hbody

/-- An `enqueue` that ends: what it finds changed is pending, or left to another `enqueue`. -/
theorem RaceInv.enqueue_end (H : RaceInv base s) {current : Json} {snapshot : JsObject Json}
    (htask : .gotMeta key current snapshot ∈ s.tasks)
    (hok : ∀ id, (entriesOfStore key current).get? id ≠ snapshot.get? id →
      (∀ c ∈ s.phase.taken, logicalKeyOf c = storeEntryKey key id → c.ts ≠ now) ∧
      ((entriesOfStore key current).get? id = s.dev.entry key id ∨
        ∃ t ∈ s.tasks.erase (.gotMeta key current snapshot), t.Covers s.dev key id)) :
    RaceInv base { s with
      tasks := s.tasks.erase (.gotMeta key current snapshot)
      dev := { s.dev with outbox := enqueueStore s.dev.outbox snapshot key current now }
      fresh := enqueueStore s.fresh snapshot key current now } := by
  have hsynced : key ∈ syncedStoreKeys := H.tasks _ htask
  have hcolon := not_mem_syncedStoreKey hsynced
  refine ⟨nodup_enqueueStore H.nodup, nodup_enqueueStore H.freshNodup,
    fun t ht => H.tasks t (mem_of_mem_erase ht), ?_, ?_, ?_, H.sent,
    H.phase.congr rfl fun _ _ _ _ _ _ => rfl, ?_, H.known, H.acked⟩
  · intro c hc
    rw [mem_enqueueStore H.freshNodup] at hc
    exact (mem_enqueueStore H.nodup).mpr (hc.imp_right fun hc => ⟨H.fresh c hc.1, hc.2⟩)
  · intro c hc t ht hkey
    rw [mem_enqueueStore H.freshNodup] at hc
    rcases hc with ⟨id, hne, rfl⟩ | ⟨hc, -⟩
    · exact ((hok id hne).1 t ht hkey.symm).symm
    · exact H.freshKept c hc t ht hkey
  · intro c hc t ht hkey hts
    rw [mem_enqueueStore H.nodup] at hc
    rcases hc with ⟨id, hne, rfl⟩ | ⟨hc, -⟩
    · exact absurd hts.symm ((hok id hne).1 t ht hkey.symm)
    · exact H.taken c hc t ht hkey hts
  · intro k hk id hid
    by_cases hdiff : k = key ∧ (entriesOfStore key current).get? id ≠ snapshot.get? id
    · obtain ⟨rfl, hne⟩ := hdiff
      rcases (hok id hne).2 with hcur | ⟨t, ht, hcov⟩
      · refine .pending ⟨now, .storeEntry k id _⟩ _
          ((mem_enqueueStore H.nodup).mpr (.inl ⟨id, hne, rfl⟩)) rfl ?_
        rw [hcur]; exact Iff.rfl
      · exact .enqueuing t ht (by cases t <;> exact hcov)
    cases H.accounted k hk id hid with
    | synced h => exact .synced h
    | enqueuing t ht hcov =>
      rcases mem_tasks_erase (.gotMeta key current snapshot) ht with rfl | ht
      · exact absurd ⟨hcov.1.symm, hcov.2.2⟩ hdiff
      · exact .enqueuing t ht (by cases t <;> exact hcov)
    | pending c patch hc hbody hflag =>
      refine .pending c patch ((mem_enqueueStore H.nodup).mpr (.inr ⟨hc, ?_⟩)) hbody hflag
      intro id' hne e
      rw [logicalKeyOf, hbody, logicalKey_storeEntry,
        storeEntryKey_inj (not_mem_syncedStoreKey hk) hcolon] at e
      obtain ⟨rfl, rfl⟩ := e
      exact hdiff ⟨rfl, hne⟩
    | unbooked x patch hx hbody => exact .unbooked x patch hx hbody

theorem RaceInv.enqueue (H : RaceInv base s) (htask : task ∈ s.tasks)
    (hok : ∀ key current snapshot, task = .gotMeta key current snapshot →
      ∀ id, (entriesOfStore key current).get? id ≠ snapshot.get? id →
        (∀ c ∈ s.phase.taken, logicalKeyOf c = storeEntryKey key id → c.ts ≠ now) ∧
        ((entriesOfStore key current).get? id = s.dev.entry key id ∨
          ∃ t ∈ s.tasks.erase task, t.Covers s.dev key id)) :
    RaceInv base (enqueueOn s task now) := by
  cases task with
  | started key =>
    refine H.enqueue_read htask rfl fun k id hcov => .inl ⟨hcov, ?_⟩
    obtain rfl : key = k := hcov
    rfl
  | gotValue key current =>
    refine H.enqueue_read htask rfl fun k id ⟨hk, hcur⟩ => ?_
    subst hk
    by_cases h : (entriesOfStore key current).get? id = (s.dev.syncMeta.snapshot key).get? id
    · exact .inr (hcur.symm.trans h)
    · exact .inl ⟨rfl, hcur, h⟩
  | gotMeta key current snapshot => exact H.enqueue_end htask (hok key current snapshot rfl)

theorem RaceInv.phase_step (H : RaceInv base s) (htaken : ∀ t ∈ p.taken, t ∈ s.phase.taken)
    (hsent : ∀ x ∈ p.sent, BuiltFor s.dev x.change x.op) (hphase : PhaseOk s.dev p)
    (hunbooked : ∀ x, x ∈ p.unbooked ↔ x ∈ s.phase.unbooked) :
    RaceInv base { s with phase := p } :=
  H.advance rfl rfl rfl (List.Sublist.refl _) H.fresh htaken hsent hphase
    (fun x hx => (hunbooked x).mpr hx) (fun _ hc => .inl hc) (fun _ hy => hy)
    fun x hx => H.acked x ((hunbooked x).mp hx)

theorem RaceInv.endFilling (H : RaceInv base s) (htaken : ∀ c ∈ sent.map (·.change), c ∈ s.phase.taken)
    (hsent : ∀ x ∈ sent, BuiltFor s.dev x.change x.op) (hunbooked : s.phase.unbooked = []) :
    RaceInv base (endFilling s total sent) := by
  simp only [CloudAccount.endFilling]
  split
  · exact H.phase_step htaken hsent trivial fun x => by rw [hunbooked]; rfl
  split <;>
  · exact H.phase_step (by simp [PushPhase.taken]) (by simp [PushPhase.sent]) trivial
      fun x => by rw [hunbooked]; rfl

theorem phaseOk_built {todo : List Change} (hok : ∀ key id patch, c.body = .storeEntry key id patch →
      (patch = none → d.entry key id = none) ∧ (d.entry key id = some .null → patch = some .null)) :
    PhaseOk d (.built c (buildOp d findMessage now c) todo total sent) := by
  cases hop : buildOp d findMessage now c with
  | none =>
    intro key id patch hc
    cases patch with
    | none => simp [buildOp, hc] at hop
    | some value => simpa [buildOp, hc] using hop
  | some op =>
    intro key id patch hc
    obtain ⟨hdel, hnull⟩ := hok key id patch hc
    cases patch with
    | none =>
      simp only [buildOp, hc, Option.some.injEq] at hop
      exact ⟨by rw [← hop, hdel rfl], by simp [hdel rfl], by simp [hdel rfl]⟩
    | some value =>
      cases hd : d.entry key id with
      | none => simp [buildOp, hc, hd] at hop
      | some v =>
        simp only [buildOp, hc, hd, Option.map_some, Option.some.injEq] at hop
        exact ⟨by rw [← hop], by simp, fun h => hnull (hd.trans h)⟩

theorem Booking.step (h : Booking d (x :: rest) sent next) (hx : BuiltFor d x.change x.op) :
    Booking d rest sent (book d next x.change) := by
  have hmem := h.subset x (mem_cons_self ..)
  by_cases hstore : ∃ key id patch, x.change.body = .storeEntry key id patch ∧ key ≠ "" ∧ id ≠ ""
  · obtain ⟨key, id, patch, hc, hkey, hid⟩ := hstore
    refine ⟨fun y hy => h.subset y (mem_cons_of_mem _ hy), ?_, ?_⟩
    · intro y hy hrest k i patch' hc' hk hi
      rw [book_entry hx hc hkey hid]
      split
      · next hsame => rw [hsame.1, hsame.2]
      next hdiff =>
      refine h.booked y hy (fun hy' => ?_) k i patch' hc' hk hi
      rcases mem_cons.mp hy' with rfl | hy'
      · rw [hc] at hc'; cases hc'; exact hdiff ⟨rfl, rfl⟩
      · exact hrest hy'
    · intro k i
      rw [book_entry hx hc hkey hid]
      split
      · next hsame =>
        obtain ⟨rfl, rfl⟩ := hsame
        exact .inr ⟨rfl, x, hmem, patch, hc⟩
      · exact h.other k i
  · have hself : book d next x.change = next := by
      refine book_eq_self fun key id patch hc => ?_
      by_contra hne
      rw [not_or] at hne
      exact hstore ⟨key, id, patch, hc, hne⟩
    rw [hself]
    refine ⟨fun y hy => h.subset y (mem_cons_of_mem _ hy), ?_, h.other⟩
    intro y hy hrest k i patch' hc' hk hi
    refine h.booked y hy (fun hy' => ?_) k i patch' hc' hk hi
    rcases mem_cons.mp hy' with rfl | hy'
    · exact hstore ⟨k, i, patch', hc', hk, hi⟩
    · exact hrest hy'

theorem RaceInv.book_end (H : RaceInv base s) (hp : s.phase = .booking [] sent next) :
    RaceInv base ({ s with
      dev := { s.dev with syncMeta := next }
      phase := .loop } : PushRace δ) := by
  have hB : Booking s.dev [] sent next := by
    have := H.phase
    rwa [hp] at this
  have hacked : ∀ x ∈ sent, ∀ key id patch, x.change.body = .storeEntry key id patch →
      (key, id, s.dev.entry key id) ∈ s.acked := by
    have := H.acked
    rwa [hp] at this
  refine ⟨H.nodup, H.freshNodup, H.tasks, H.fresh, by simp [PushPhase.taken],
    by simp [PushPhase.taken], by simp [PushPhase.sent], trivial, ?_, ?_,
    by simp [PushPhase.unbooked]⟩
  · intro key hkey id hid
    have hne : key ≠ "" := by rintro rfl; revert hkey; decide
    -- an entry whose snapshot changes was pushed as it is
    have hsynced : ∀ x ∈ sent, ∀ patch, x.change.body = .storeEntry key id patch →
        s.dev.entry key id = next.entry key id :=
      fun x hx patch hc => (hB.booked x hx (by simp) key id patch hc hne hid).symm
    cases H.accounted key hkey id hid with
    | synced h =>
      rcases hB.other key id with hother | ⟨hnext, -⟩
      · exact .synced (h.trans hother.symm)
      · exact .synced hnext.symm
    | enqueuing t ht hcov => exact .enqueuing t ht (by cases t <;> exact hcov)
    | pending c patch hc hbody hflag => exact .pending c patch hc hbody hflag
    | unbooked x patch hx hbody =>
      rw [hp] at hx
      exact .synced (hsynced x hx patch hbody)
  · intro key id
    rcases hB.other key id with hother | ⟨hnext, x, hx, patch, hbody⟩
    · simp only [hother]
      exact H.known key id
    · simp only [hnext]
      exact .inr (hacked x hx key id patch hbody)

theorem RaceInv.push [Blob δ] (H : RaceInv base s)
    (hok : Undisturbed sealItem s (.push findMessage now))
    (h : pushOn sealItem findMessage now s = some s') : RaceInv base s' := by
  have hsent := H.sent
  have hphase := H.phase
  cases hp : s.phase with
  | idle | sending | splitting => simp [pushOn, hp] at h
  | loop =>
    simp only [pushOn, hp] at h
    split at h
    · cases h
      exact H.phase_step (by simp [PushPhase.taken]) (by simp [PushPhase.sent]) trivial
        (by simp [hp, PushPhase.unbooked])
    -- the push takes note of the outbox
    cases h
    refine { H with
      freshNodup := nodup_nil, fresh := by simp, freshKept := by simp, taken := ?_,
      sent := by simp [PushPhase.sent], phase := trivial, accounted := ?_, acked := ?_ }
    · intro c hc t ht hkey _
      exact inj_on_of_nodup_map H.nodup hc (by simpa [PushPhase.taken] using ht) hkey
    · intro key hkey id hid
      cases H.accounted key hkey id hid with
      | synced h => exact .synced h
      | enqueuing t ht hcov => exact .enqueuing t ht hcov
      | pending c patch hc hbody hflag => exact .pending c patch hc hbody hflag
      | unbooked x patch hx hbody => simp [hp, PushPhase.unbooked] at hx
    · simp [PushPhase.unbooked]
  | filling todo total sent =>
    rw [hp] at hsent
    cases todo with
    | nil =>
      simp only [pushOn, hp, Option.some.injEq] at h
      subst h
      exact H.endFilling (by simp [hp, PushPhase.taken]) hsent (by rw [hp]; rfl)
    | cons c todo =>
      simp only [pushOn, hp] at h
      split at h
      · simp only [Option.some.injEq] at h
        subst h
        refine H.endFilling (fun c hc => ?_) hsent (by rw [hp]; rfl)
        rw [hp]; exact mem_append_left _ hc
      next hlen =>
      cases h
      simp only [Undisturbed, hp] at hok
      refine H.phase_step (fun t ht => by rwa [hp]) hsent ?_ (fun x => by rw [hp]; rfl)
      exact phaseOk_built (hok (not_le.mp hlen))
  | built c op todo total sent =>
    rw [hp] at hsent hphase
    cases op with
    | none =>
      simp only [pushOn, hp, Option.some.injEq] at h
      subst h
      obtain ⟨hbox, hkept⟩ := H.mem_removeSent [c] (by simp [hp, PushPhase.taken])
      refine H.advance rfl rfl rfl filter_sublist hkept ?_ hsent trivial (by simp [hp,
        PushPhase.unbooked]) ?_ (fun _ hy => hy) (by simp [PushPhase.unbooked])
      · intro t ht
        rw [hp]
        simp only [PushPhase.taken, mem_append, mem_cons] at ht ⊢
        exact ht.imp_right .inr
      -- a change whose entry is gone accounts for nothing
      intro x hx
      refine (hbox x hx).imp_right fun hxc => .inr fun key id patch hbody hflag => ?_
      rw [mem_singleton.mp hxc] at hbody
      obtain ⟨hsome, hgone⟩ := hphase key id patch hbody
      exact hsome (hflag.mpr hgone)
    | some op =>
      simp only [Undisturbed, hp] at hok
      obtain ⟨item, hitem, hfits⟩ := hok
      simp only [pushOn, hp, hitem] at h
      have hend : RaceInv base (CloudAccount.endFilling s total sent) := by
        refine H.endFilling (fun c hc => ?_) hsent (by rw [hp]; rfl)
        rw [hp]; exact mem_append_left _ hc
      split at h
      · cases h
        refine H.phase_step (fun t ht => ?_) (fun x hx => ?_) trivial (fun x => by rw [hp]; rfl)
        · rw [hp]
          simpa [PushPhase.taken] using ht
        simp only [PushPhase.sent, mem_append, mem_singleton] at hx
        rcases hx with hx | rfl
        · exact hsent x hx
        · exact hphase
      · next hfull =>
        have hne := hfits.resolve_left hfull
        rw [if_neg (by simpa using hne), Option.some.injEq] at h
        subst h
        exact hend
  | readingMeta sent =>
    simp only [pushOn, hp, Option.some.injEq] at h
    subst h
    rw [hp] at hsent
    refine H.phase_step (by simp [PushPhase.taken]) hsent ?_ (fun x => by rw [hp]; rfl)
    exact ⟨fun _ hx => hx, fun x hx hno => absurd hx hno, fun _ _ => .inl rfl⟩
  | booking rest sent next =>
    rw [hp] at hsent hphase
    cases rest with
    | nil =>
      simp only [pushOn, hp, Option.some.injEq] at h
      subst h
      exact H.book_end hp
    | cons x rest =>
      simp only [pushOn, hp, Option.some.injEq] at h
      subst h
      refine H.phase_step (by simp [PushPhase.taken]) hsent ?_ (fun x => by rw [hp]; rfl)
      exact Booking.step hphase (hsent x (hphase.subset x (mem_cons_self ..)))

theorem mem_entry (hb : BuiltFor d x.change x.op)
    (hc : x.change.body = .storeEntry key id patch) : (key, id, d.entry key id) ∈ x.entry := by
  simp [SentChange.entry, (hb key id patch hc).1]

theorem RaceInv.give_up (H : RaceInv base s) {accepted : Bool}
    (hunbooked : s.phase.unbooked = []) :
    RaceInv base ({ if accepted then s.ack sent else s with phase := .idle } : PushRace δ) := by
  have hidle : RaceInv base ({ s with phase := .idle } : PushRace δ) :=
    H.phase_step (by simp [PushPhase.taken]) (by simp [PushPhase.sent]) trivial
      fun x => by rw [hunbooked]; rfl
  cases accepted with
  | false => exact hidle
  | true =>
    exact { hidle with
      accounted := fun key hk id hid => by
        cases hidle.accounted key hk id hid with
        | synced h => exact .synced h
        | enqueuing t ht hcov => exact .enqueuing t ht hcov
        | pending c patch hc hbody hflag => exact .pending c patch hc hbody hflag
        | unbooked x patch hx hbody => cases hx
      known := fun key id => (hidle.known key id).imp_right (mem_append_left _)
      acked := fun x hx => by cases hx }

theorem RaceInv.split_ok (H : RaceInv base s) {taken : List (SentChange δ)}
    (hp : s.phase = .splitting taken (x :: rest)) :
    RaceInv base (splitOn ((s.ack [x]).removeSent [x.change]) (taken ++ [x]) rest) := by
  have hsent := H.sent
  have hacked := H.acked
  rw [hp] at hsent hacked
  obtain ⟨hbox, hkept⟩ := H.mem_removeSent [x.change] (by simp [hp, PushPhase.taken])
  have hx : x ∈ taken ++ x :: rest := by simp
  -- the same for both phases that may come next
  have hnext : ∀ p : PushPhase δ, (∀ t ∈ p.taken, t ∈ rest.map (·.change)) →
      (∀ y ∈ p.sent, y ∈ taken ++ x :: rest) → PhaseOk s.dev p →
      (∀ y, y ∈ p.unbooked ↔ y ∈ taken ++ [x]) →
      RaceInv base { (s.ack [x]).removeSent [x.change] with phase := p } := by
    intro p htaken' hsent' hphase' hunb
    refine H.advance rfl rfl rfl filter_sublist hkept (fun t ht => ?_)
      (fun y hy => hsent y (hsent' y hy)) hphase' (fun y hy => ?_) (fun c hc => ?_)
      (fun y hy => mem_append_left _ hy) fun y hy key id patch hbody => ?_
    · rw [hp]; exact mem_cons_of_mem _ (htaken' t ht)
    · rw [hp] at hy; exact (hunb y).mpr (mem_append_left _ hy)
    · refine (hbox c hc).imp_right fun hcx => .inl ⟨x, (hunb x).mpr (by simp), ?_⟩
      exact (mem_singleton.mp hcx).symm
    rcases mem_append.mp ((hunb y).mp hy) with hy | hy
    · exact mem_append_left _ (hacked y hy key id patch hbody)
    · rw [mem_singleton.mp hy] at hbody
      refine mem_append_right _ ?_
      simpa using mem_entry (hsent x hx) hbody
  simp only [splitOn]
  split
  · exact hnext (.readingMeta (taken ++ [x])) (by simp [PushPhase.taken])
      (fun y hy => by
        simp only [PushPhase.sent, mem_append, mem_cons] at hy ⊢
        tauto)
      trivial fun _ => Iff.rfl
  · exact hnext (.splitting (taken ++ [x]) rest) (fun _ ht => ht)
      (fun y hy => by simpa [PushPhase.sent] using hy) trivial fun _ => Iff.rfl

theorem RaceInv.reply [Blob δ] {reply : Reply}
    (H : RaceInv base s) (hok : Undisturbed sealItem s (.reply reply))
    (h : replyOn s reply = some s') : RaceInv base s' := by
  cases hp : s.phase with
  | sending sent =>
    have hsent := H.sent
    rw [hp] at hsent
    cases reply with
    | ok =>
      simp only [replyOn, hp, Option.some.injEq] at h
      subst h
      obtain ⟨hbox, hkept⟩ := H.mem_removeSent (sent.map (·.change))
        (by simp [hp, PushPhase.taken])
      refine H.advance rfl rfl rfl filter_sublist hkept (by simp [PushPhase.taken]) hsent trivial
        (by simp [hp, PushPhase.unbooked]) (fun c hc => ?_) (fun y hy => mem_append_left _ hy)
        fun x hx key id patch hbody => ?_
      · refine (hbox c hc).imp_right fun hcs => .inl ?_
        obtain ⟨x, hx, rfl⟩ := mem_map.mp hcs
        exact ⟨x, hx, rfl⟩
      · refine mem_append_right _ (mem_flatMap.mpr ⟨x, hx, ?_⟩)
        exact mem_entry (hsent x hx) hbody
    | tooLarge =>
      have hsplit : RaceInv base { s with phase := .splitting [] sent } :=
        H.phase_step (fun t ht => by rwa [hp]) hsent trivial fun x => by rw [hp]; rfl
      match sent with
      | [] | _ :: _ :: _ =>
        simp only [replyOn, hp, Option.some.injEq] at h
        subst h
        exact hsplit
      | [x] => simp [Undisturbed, hp] at hok
    | failed accepted =>
      simp only [replyOn, hp, Option.some.injEq] at h
      subst h
      exact H.give_up (by rw [hp]; rfl)
  | splitting taken rest =>
    cases rest with
    | nil => simp [replyOn, hp] at h
    | cons x rest =>
      cases reply with
      | ok =>
        simp only [replyOn, hp, Option.some.injEq] at h
        subst h
        exact H.split_ok hp
      | tooLarge => simp [Undisturbed, hp] at hok
      | failed accepted =>
        simp only [replyOn, hp, Option.some.injEq] at h
        subst h
        simp only [Undisturbed, hp] at hok
        exact H.give_up (by rw [hp]; exact hok)
  | _ => simp [replyOn, hp] at h

theorem RaceInv.step [Blob δ] {a : RaceAction}
    (H : RaceInv base s) (hok : Undisturbed sealItem s a) (h : raceStep sealItem s a = some s') :
    RaceInv base s' := by
  cases a with
  | write key value => cases h; exact H.write hok
  | report body now =>
    simp only [raceStep] at h
    split at h
    · next hbody => cases h; exact H.report hbody hok
    · cases h
  | enqueue task now =>
    simp only [raceStep] at h
    split at h
    · next htask =>
      cases h
      refine H.enqueue htask fun key current snapshot ht => ?_
      subst ht
      exact hok
    · cases h
  | start =>
    cases hp : s.phase with
    | idle =>
      simp only [raceStep, hp, Option.some.injEq] at h
      subst h
      exact H.phase_step (by simp [PushPhase.taken]) (by simp [PushPhase.sent]) trivial
        fun x => by rw [hp]; rfl
    | _ => simp [raceStep, hp] at h
  | stop =>
    cases hp : s.phase with
    | loop =>
      simp only [raceStep, hp, Option.some.injEq] at h
      subst h
      exact H.phase_step (by simp [PushPhase.taken]) (by simp [PushPhase.sent]) trivial
        fun x => by rw [hp]; rfl
    | _ => simp [raceStep, hp] at h
  | push findMessage now => exact H.push hok h
  | reply reply => exact H.reply hok h

end

local instance instBlobRace : Blob Op := ⟨fun _ => 100, fun _ => 100⟩

/-- Items in the clear. -/
def plainItem (logicalKey : String) (op : Op) : PushItem Op := ⟨logicalKey, op⟩

/-- The settings with one field. -/
def themeOf (theme : String) : Json := .obj [("theme", .str theme)]

/-- A theme is written, and written again while its push is on its way. -/
def themeRun (find : String → String → Option Message) : List RaceAction :=
  [.write "settings" (some (themeOf "light")), .enqueue (.started "settings") 9,
    .enqueue (.gotValue "settings" (themeOf "light")) 9,
    .enqueue (.gotMeta "settings" (themeOf "light") .empty) 10, .start, .push find 11,
    .push find 11, .push find 11, .push find 11, .write "settings" (some (themeOf "dark")),
    .reply .ok, .push find 12, .push find 12, .push find 12,
    .enqueue (.started "settings") 13, .enqueue (.gotValue "settings" (themeOf "dark")) 13,
    .enqueue (.gotMeta "settings" (themeOf "dark") (.ofFields [("theme", .str "dark")])) 14,
    .push find 15]

end Bluetalk.CloudAccount

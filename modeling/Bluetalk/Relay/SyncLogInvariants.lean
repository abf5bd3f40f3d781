import Bluetalk.Relay.SyncLog
import Bluetalk.Theory.Run

/-!
# The sync log over whole runs

`LogInv` is the invariant of the log of one account: its keys and its sequence numbers are
distinct and none lies above the last number handed out. `Grows` is what any sequence of pushes
and deletes may do to it: a row numbered at most as high as before was already there. With both, a
reader that always moves to the last row of its page has received every live row behind its cursor
(`reader_run`).
-/

open List Option

namespace Bluetalk.Relay

variable {δ : Type} {a b : Nat} {n n' n'' : Nat} {items items' items'' : List (ItemRow δ)}
  {db : Db δ} {f : AccountRow → AccountRow}

/-- The log of account `a`: its rows among `items`, its last number `n`. -/
structure LogInv (a : Nat) (items : List (ItemRow δ)) (n : Nat) : Prop where
  keys : ((rowsAt items a).map (·.key)).Nodup
  seqs : ∀ x ∈ rowsAt items a, ∀ y ∈ rowsAt items a, x.seq = y.seq → x.key = y.key
  le : ∀ x ∈ rowsAt items a, x.seq ≤ n

/-- The log of account `a` after any pushes and deletes: every row that is not numbered higher
than before was there before. -/
structure Grows (a : Nat) (items : List (ItemRow δ)) (n : Nat) (items' : List (ItemRow δ))
    (n' : Nat) : Prop where
  le : n ≤ n'
  old : ∀ x ∈ rowsAt items' a, x.seq ≤ n → x ∈ rowsAt items a

namespace LogInv

theorem empty (h : rowsAt items a = []) : LogInv a items n :=
  ⟨by simp [h], by simp [h], by simp [h]⟩

variable {x y r : SyncRow δ}

theorem seqs_nodup (H : LogInv a items n) : ((rowsAt items a).map (·.seq)).Nodup :=
  (H.keys.of_map _).map_on fun _ hx _ hy h =>
    inj_on_of_nodup_map H.keys hx hy (H.seqs _ hx _ hy h)

theorem sublist (H : LogInv a items n) (hs : (rowsAt items' a).Sublist (rowsAt items a))
    (hn : n ≤ n') : LogInv a items' n' where
  keys := H.keys.sublist (hs.map _)
  seqs x hx y hy := H.seqs x (hs.subset hx) y (hs.subset hy)
  le x hx := (H.le x (hs.subset hx)).trans hn

theorem upsert (H : LogInv a items n) (hr : r.seq = n + 1)
    (h : upsertItem items a r = some items') : LogInv a items' (n + 1) where
  keys := rowsAt_map_key_upsertItem h H.keys
  seqs x hx y hy e := by
    rcases (mem_rowsAt_upsertItem h).mp hx with ⟨-, rfl⟩ | ⟨hx, -⟩ <;>
      rcases (mem_rowsAt_upsertItem h).mp hy with ⟨-, rfl⟩ | ⟨hy, -⟩
    · rfl
    · have := H.le y hy; omega
    · have := H.le x hx; omega
    · exact H.seqs x hx y hy e
  le x hx := by
    rcases (mem_rowsAt_upsertItem h).mp hx with ⟨-, rfl⟩ | ⟨hx, -⟩
    · exact hr.le
    · exact (H.le x hx).trans (Nat.le_succ n)

theorem upsert_other (H : LogInv b items n) (hab : b ≠ a) (h : upsertItem items a r = some items') : LogInv b items' n where
  keys := rowsAt_map_key_upsertItem h H.keys
  seqs x hx y hy := by
    simp only [mem_rowsAt_upsertItem h, hab, false_and, not_false_iff, and_true, false_or] at hx hy
    exact H.seqs x hx y hy
  le x hx := by
    simp only [mem_rowsAt_upsertItem h, hab, false_and, not_false_iff, and_true, false_or] at hx
    exact H.le x hx

end LogInv

namespace Grows

theorem refl : Grows a items n items n := ⟨Nat.le_refl _, fun _ h _ => h⟩

theorem trans (h : Grows a items n items' n') (h' : Grows a items' n' items'' n'') :
    Grows a items n items'' n'' where
  le := h.le.trans h'.le
  old x hx hn := h.old x (h'.old x hx (hn.trans h.le)) hn

theorem subset (hs : ∀ x ∈ rowsAt items' a, x ∈ rowsAt items a) (hn : n ≤ n') :
    Grows a items n items' n' := ⟨hn, fun x hx _ => hs x hx⟩

variable {r : SyncRow δ}

theorem upsert (hr : r.seq = n + 1) (h : upsertItem items a r = some items') :
    Grows a items n items' (n + 1) where
  le := Nat.le_succ n
  old x hx hn := by
    rcases (mem_rowsAt_upsertItem h).mp hx with ⟨-, rfl⟩ | ⟨hx, -⟩
    · omega
    · exact hx

theorem upsert_other (hab : b ≠ a) (h : upsertItem items a r = some items') :
    Grows b items n items' n :=
  subset (fun x hx => by
    simpa only [mem_rowsAt_upsertItem h, hab, false_and, not_false_iff, and_true, false_or] using hx)
    (Nat.le_refl n)

end Grows

/-! ## One request -/

section
variable [Blob δ] {quota now : Int} {st st' : PushState δ} {pushed : List (PushItem δ)}

/-- The items of a push get the next numbers in order. -/
theorem pushItems_self (h : pushItems a quota now st pushed = .ok st') (H : LogInv a st.items st.nextSeq) :
    LogInv a st'.items st'.nextSeq ∧ Grows a st.items st.nextSeq st'.items st'.nextSeq ∧
      st'.nextSeq = st.nextSeq + pushed.length ∧
      st'.results.map (·.2) = st.results.map (·.2) ++ List.range' (st.nextSeq + 1) pushed.length := by
  induction pushed generalizing st with
  | nil => cases h; exact ⟨H, .refl, rfl, by simp⟩
  | cons item pushed ih =>
    obtain ⟨st₁, hst₁, h⟩ := pushItems_cons_ok h
    obtain ⟨hup, hn, hres, -⟩ := pushItem_ok hst₁
    have H₁ := H.upsert rfl hup
    rw [← hn] at H₁
    obtain ⟨H', hg, hlen, hout⟩ := ih h H₁
    refine ⟨H', ?_, ?_, ?_⟩
    · exact Grows.trans (hn ▸ Grows.upsert rfl hup) hg
    · rw [hlen, hn, length_cons]; omega
    · simp [hout, hn, hres, range'_succ]

theorem pushItems_other (hab : b ≠ a)
    (h : pushItems a quota now st pushed = .ok st') (H : LogInv b st.items n) :
    LogInv b st'.items n ∧ Grows b st.items n st'.items n := by
  induction pushed generalizing st with
  | nil => cases h; exact ⟨H, .refl⟩
  | cons item pushed ih =>
    obtain ⟨st₁, hst₁, h⟩ := pushItems_cons_ok h
    have hup := (pushItem_ok hst₁).1
    obtain ⟨H', hg⟩ := ih h (H.upsert_other hab hup)
    exact ⟨H', (Grows.upsert_other hab hup).trans hg⟩

/-- A row after the loop is an item under a new number, or an old row of another key. -/
theorem pushItems_source (h : pushItems a quota now st pushed = .ok st') {r : SyncRow δ} (hr : r ∈ rowsAt st'.items a) :
    (∃ x ∈ pushed, r.key = x.key ∧ r.data = x.data ∧ st.nextSeq < r.seq) ∨
      r ∈ rowsAt st.items a ∧ ∀ x ∈ pushed, x.key ≠ r.key := by
  induction pushed generalizing st with
  | nil => cases h; exact .inr ⟨hr, by simp⟩
  | cons item pushed ih =>
    obtain ⟨st₁, hst₁, h⟩ := pushItems_cons_ok h
    obtain ⟨hup, hseq, -, -⟩ := pushItem_ok hst₁
    rcases ih h with ⟨x, hx, hkey, hdata, hlt⟩ | ⟨hr₁, hne⟩
    · exact .inl ⟨x, mem_cons_of_mem _ hx, hkey, hdata, by omega⟩
    · rcases (mem_rowsAt_upsertItem hup).mp hr₁ with ⟨-, rfl⟩ | ⟨hr₀, hk⟩
      · exact .inl ⟨item, mem_cons_self .., rfl, rfl, Nat.lt_succ_self _⟩
      · exact .inr ⟨hr₀, forall_mem_cons.mpr ⟨fun e => hk ⟨rfl, e.symm⟩, hne⟩⟩

/-- Over distinct keys the loop keeps the rows of other keys and stores every item. -/
theorem pushItems_rows (hn : (pushed.map (·.key)).Nodup)
    (h : pushItems a quota now st pushed = .ok st') :
    (∀ r ∈ rowsAt st.items a, (∀ x ∈ pushed, x.key ≠ r.key) → r ∈ rowsAt st'.items a) ∧
    ∀ x ∈ pushed, ∃ r ∈ rowsAt st'.items a, r.key = x.key ∧ r.data = x.data := by
  induction pushed generalizing st with
  | nil => cases h; simp
  | cons item pushed ih =>
    obtain ⟨st₁, hst₁, h⟩ := pushItems_cons_ok h
    rw [map_cons, nodup_cons] at hn
    have hup := (pushItem_ok hst₁).1
    obtain ⟨hkept, hstored⟩ := ih hn.2 h
    have hfresh : ∀ x ∈ pushed, x.key ≠ item.key := fun x hx e =>
      hn.1 (mem_map.mpr ⟨x, hx, e⟩)
    simp only [forall_mem_cons]
    refine ⟨fun r hr hne => ?_, ?_, hstored⟩
    · exact hkept r ((mem_rowsAt_upsertItem hup).mpr (.inr ⟨hr, fun hk => hne.1 hk.2.symm⟩)) hne.2
    · exact ⟨_, hkept _ ((mem_rowsAt_upsertItem hup).mpr (.inl ⟨rfl, rfl⟩)) hfresh, rfl, rfl⟩

theorem deleteKeys_sublist (keys : List String) {st : DeleteState δ} :
    (rowsAt (keys.foldl (deleteKey a) st).items b).Sublist (rowsAt st.items b) := by
  induction keys generalizing st with
  | nil => exact .refl _
  | cons key keys ih =>
    refine ih.trans ?_
    simp only [deleteKey]
    split
    · exact .refl _
    split
    · exact .refl _
    · exact (filter_sublist.filter _).map _

end

/-- The invariant of account `a` in a database. -/
def Db.LogInv (db : Db δ) (a : Nat) : Prop := Relay.LogInv a db.syncItems (db.nextSeq a)

/-- What happened to the log of account `a` between two databases. -/
def Db.Grows (db db' : Db δ) (a : Nat) : Prop :=
  Relay.Grows a db.syncItems (db.nextSeq a) db'.syncItems (db'.nextSeq a)

theorem Db.nextSeq_updateAccount_of_eq (hf : ∀ x, (f x).id = x.id ∧ (f x).nextSeq = x.nextSeq) :
    (db.updateAccount a f).nextSeq b = db.nextSeq b := by
  simp only [Db.nextSeq, Db.account?_updateAccount fun x => (hf x).1]
  cases db.account? b with
  | none => rfl
  | some x => simp only [map_some, getD_some]; split <;> simp [hf]

theorem Db.nextSeq_updateAccount {acc : AccountRow} (hf : ∀ x, (f x).id = x.id) (hacc : db.account? a = some acc) :
    (db.updateAccount a f).nextSeq b = if b = a then (f acc).nextSeq else db.nextSeq b := by
  simp only [Db.nextSeq, Db.account?_updateAccount hf, Option.map_map]
  by_cases hb : b = a
  · subst hb; simp [hacc, Db.account?_id hacc]
  · cases hx : db.account? b with
    | none => simp [hb]
    | some x => simp [hb, Db.account?_id hx]

section
variable [Blob δ] {db db' : Db δ} {pushed : List (PushItem δ)} {now quota : Int} {out : PushOut}

theorem pushSql_log (h : pushSql db a pushed quota now = .ok (out, db')) (H : db.LogInv b) :
    db'.LogInv b ∧ db.Grows db' b ∧
      (b = a → out.results.map (·.2) = List.range' (db.nextSeq b + 1) pushed.length ∧
        db'.nextSeq b = db.nextSeq b + pushed.length) ∧
      (b ≠ a → db'.nextSeq b = db.nextSeq b) := by
  obtain ⟨acc, st, hacc, hst, rfl, rfl⟩ := pushSql_ok h
  have hacc' : ({ db with syncItems := st.items } : Db δ).account? a = some acc := hacc
  have hself : acc.nextSeq = db.nextSeq a := by simp [Db.nextSeq, hacc]
  have hnext := Db.nextSeq_updateAccount (b := b)
    (f := fun x => { x with nextSeq := st.nextSeq, usedBytes := st.current }) (fun _ => rfl) hacc'
  simp only [Db.LogInv, Db.Grows, Db.updateAccount_syncItems, hnext]
  by_cases hb : b = a
  · subst hb
    rw [Db.LogInv, ← hself] at H
    obtain ⟨H', hg, hlen, hres⟩ := pushItems_self hst H
    simp only [if_true, ← hself]
    exact ⟨H', hg, fun _ => ⟨by simpa using hres, hlen⟩, fun e => absurd rfl e⟩
  · obtain ⟨H', hg⟩ := pushItems_other hb hst H
    simp only [if_neg hb]
    exact ⟨H', hg, fun e => absurd e hb, fun _ => rfl⟩

theorem pushSql_source (h : pushSql db a pushed quota now = .ok (out, db')) {r : SyncRow δ} (hr : r ∈ db'.rowsOf a) :
    (∃ x ∈ pushed, r.key = x.key ∧ r.data = x.data ∧ db.nextSeq a < r.seq) ∨
      r ∈ db.rowsOf a ∧ ∀ x ∈ pushed, x.key ≠ r.key := by
  obtain ⟨acc, st, hacc, hst, rfl, rfl⟩ := pushSql_ok h
  have hself : db.nextSeq a = acc.nextSeq := by simp [Db.nextSeq, hacc]
  rw [hself]
  exact pushItems_source hst hr

theorem pushSql_rows (hn : (pushed.map (·.key)).Nodup) (h : pushSql db a pushed quota now = .ok (out, db')) :
    (∀ r ∈ db.rowsOf a, (∀ x ∈ pushed, x.key ≠ r.key) → r ∈ db'.rowsOf a) ∧
    ∀ x ∈ pushed, ∃ r ∈ db'.rowsOf a, r.key = x.key ∧ r.data = x.data := by
  obtain ⟨acc, st, hacc, hst, rfl, rfl⟩ := pushSql_ok h
  exact pushItems_rows hn hst

theorem deleteKeysSql_log {keys : List String} {k : Nat}
    (h : deleteKeysSql db a keys = .ok (k, db')) (H : db.LogInv b) :
    db'.LogInv b ∧ db.Grows db' b ∧ db'.nextSeq b = db.nextSeq b := by
  have hn : db'.nextSeq b = db.nextSeq b ∧
      (rowsAt db'.syncItems b).Sublist (rowsAt db.syncItems b) := by
    simp only [deleteKeysSql] at h
    split at h
    · cases h
    cases h
    refine ⟨?_, ?_⟩
    · split
      · exact Db.nextSeq_updateAccount_of_eq fun _ => ⟨rfl, rfl⟩
      · rfl
    · split <;> exact deleteKeys_sublist _
  refine ⟨H.sublist hn.2 hn.1.ge, ?_, hn.1⟩
  exact Grows.subset (fun x hx => hn.2.subset hx) hn.1.ge

end
end Bluetalk.Relay

/-!
## A reader of the sync log among concurrent pushes and deletes

Any devices push to and delete from any accounts while one reader of account `a` pulls again and
again, each time from the number of the last item it received. The reader keeps every item it
received; the run keeps the numbers that pushes of the account were answered with.
-/

namespace Bluetalk.Relay

variable {δ : Type}

/-- A request that changes the log. -/
inductive LogAction (δ : Type)
  | push (a : Nat) (items : List (PushItem δ)) (quota now : Int)
  | delete (a : Nat) (keys : List String)

structure LogReader (δ : Type) where
  db : Db δ
  cursor : Nat
  delivered : List (SyncRow δ)
  handedOut : List Nat
  deriving DecidableEq

inductive ReaderAction (δ : Type)
  | client (act : LogAction δ)
  | pull (limit : Nat)

section
variable [Blob δ] {db db' : Db δ} {act : LogAction δ} {b a limit : Nat} {s : LogReader δ}
  {out : PullOut δ}

/-- The database after a request; a request that fails changes nothing. -/
def logStep (db : Db δ) : LogAction δ → Option (Db δ)
  | .push a items quota now =>
    match pushSql db a items quota now with
    | .ok (_, db) => some db
    | .error _ => some db
  | .delete a keys =>
    match deleteKeysSql db a keys with
    | .ok (_, db) => some db
    | .error _ => some db

/-- The numbers of account `a` that a request is answered with. -/
def handedOutBy (db : Db δ) (a : Nat) : LogAction δ → List Nat
  | .push b items quota now =>
    match pushSql db b items quota now with
    | .ok (out, _) => if b = a then out.results.map (·.2) else []
    | .error _ => []
  | .delete .. => []

def readerStep (a : Nat) (s : LogReader δ) : ReaderAction δ → Option (LogReader δ)
  | .client act =>
    (logStep s.db act).map fun db => { s with db, handedOut := s.handedOut ++ handedOutBy s.db a act }
  | .pull limit =>
    match pullSql s.db a s.cursor limit with
    | .ok out =>
      some { s with
        cursor := advance SyncRow.seq s.cursor out.items
        delivered := s.delivered ++ out.items }
    | .error _ => some s

/-- A request keeps the invariant of every account, and numbers upwards what it adds. -/
theorem logStep_log (h : logStep db act = some db') (H : db.LogInv b) : db'.LogInv b ∧ db.Grows db' b := by
  cases act with
  | push a items quota now =>
    simp only [logStep] at h
    split at h
    · next out db₁ hp =>
      cases h
      exact ⟨(pushSql_log hp H).1, (pushSql_log hp H).2.1⟩
    · cases h; exact ⟨H, .refl⟩
  | delete a keys =>
    simp only [logStep] at h
    split at h
    · next k db₁ hd =>
      cases h
      exact ⟨(deleteKeysSql_log hd H).1, (deleteKeysSql_log hd H).2.1⟩
    · cases h; exact ⟨H, .refl⟩

theorem handedOutBy_log (h : logStep db act = some db') (H : db.LogInv a) :
    handedOutBy db a act =
      List.range' (db.nextSeq a + 1) (db'.nextSeq a - db.nextSeq a) := by
  cases act with
  | push b items quota now =>
    simp only [logStep, handedOutBy] at h ⊢
    split at h
    · next out db₁ hp =>
      cases h
      by_cases hb : a = b
      · obtain ⟨hout, hn⟩ := (pushSql_log hp H).2.2.1 hb
        simp [hb.symm, hout, hn]
      · have hn := (pushSql_log hp H).2.2.2 hb
        simp [hn, Ne.symm hb]
    · cases h; simp
  | delete b keys =>
    simp only [logStep, handedOutBy] at h ⊢
    split at h
    · next k db₁ hd => cases h; simp [(deleteKeysSql_log hd H).2.2]
    · cases h; simp

theorem logRun_log {acts : List (LogAction δ)} (h : FreeRun logStep db acts db') (H : db.LogInv b) : db'.LogInv b ∧ db.Grows db' b :=
  ⟨h.invariant (I := (·.LogInv b)) (fun _ H h => (logStep_log h H).1) H,
    h.related (I := (·.LogInv b)) (R := (·.Grows · b)) (fun _ => .refl) (fun h h' => h.trans h')
      (fun _ H h => (logStep_log h H).1) (fun _ H h => (logStep_log h H).2) H⟩

/-- What links the log, the reader and the numbers handed out. -/
structure ReaderInv (a : Nat) (s : LogReader δ) : Prop where
  log : s.db.LogInv a
  cursor : s.cursor ≤ s.db.nextSeq a
  delivered : ∀ r ∈ s.db.rowsOf a, r.seq ≤ s.cursor → r ∈ s.delivered
  sorted : s.handedOut.Pairwise (· < ·)
  bound : ∀ n ∈ s.handedOut, n ≤ s.db.nextSeq a

theorem ReaderInv.client (H : ReaderInv a s) (h : logStep s.db act = some db) :
    ReaderInv a { s with db, handedOut := s.handedOut ++ handedOutBy s.db a act } := by
  obtain ⟨hlog, hgrows⟩ := logStep_log h H.log
  refine ⟨hlog, H.cursor.trans hgrows.le, ?_, ?_, ?_⟩
  · -- a row behind the cursor is numbered at most as high as before the request
    intro r hr hle
    exact H.delivered r (hgrows.old r hr (hle.trans H.cursor)) hle
  · simp only [handedOutBy_log h H.log, pairwise_append]
    refine ⟨H.sorted, pairwise_lt_range', fun m hm n hn => ?_⟩
    have := H.bound m hm
    have := (mem_range'_1.mp hn).1
    omega
  · intro n hn
    have hle := hgrows.le
    simp only [handedOutBy_log h H.log] at hn
    rcases mem_append.mp hn with hn | hn
    · exact (H.bound n hn).trans hle
    · have := (mem_range'_1.mp hn).2
      simp only
      omega

omit [Blob δ] in
theorem ReaderInv.pull (H : ReaderInv a s) (h : pullSql s.db a s.cursor limit = .ok out) :
    ReaderInv a { s with
      cursor := advance SyncRow.seq s.cursor out.items
      delivered := s.delivered ++ out.items } := by
  have hitems := (pullSql_ok h).1
  refine ⟨H.log, ?_, ?_, H.sorted, H.bound⟩
  · simp only [hitems]
    exact advance_le H.cursor H.log.le
  intro r hr hle
  simp only [mem_append]
  rcases Nat.lt_or_ge s.cursor r.seq with hlt | hge
  · simp only [hitems] at hle ⊢
    exact .inr (mem_page_of_le_advance H.log.seqs_nodup hr hlt hle)
  · exact .inl (H.delivered r hr hge)

theorem ReaderInv.step {s' : LogReader δ} {act : ReaderAction δ}
    (H : ReaderInv a s) (h : readerStep a s act = some s') : ReaderInv a s' := by
  cases act with
  | client act =>
    obtain ⟨db, hdb, rfl⟩ := map_eq_some_iff.mp h
    exact H.client hdb
  | pull limit =>
    simp only [readerStep] at h
    split at h
    · next out hout => cases h; exact H.pull hout
    · cases h; exact H

omit [Blob δ] in
theorem ReaderInv.complete (H : ReaderInv a s) (h : pullSql s.db a s.cursor limit = .ok out) (hmore : out.more = false) :
    ∀ r ∈ s.db.rowsOf a, r ∈ s.delivered ++ out.items := by
  obtain ⟨hitems, -, hcut⟩ := pullSql_ok h
  have hnil : cutOff SyncRow.seq s.cursor limit (s.db.rowsOf a) = [] := by
    by_contra hne
    simp [hcut.mpr hne] at hmore
  intro r hr
  refine (H.pull h).delivered r hr ?_
  simp only [hitems]
  exact le_advance_of_cutOff_nil hnil hr

/-- The cursor law of the log: in every state of every run from an empty log, each live row behind
the reader's cursor was delivered as it is, the numbers handed out strictly increase over the whole
run, so none is handed out twice, and no two live rows share one. -/
theorem reader_run {a : Nat} {db : Db δ} {acts : List (ReaderAction δ)} {s : LogReader δ}
    (hdb : db.rowsOf a = []) (h : FreeRun (readerStep a) ⟨db, 0, [], []⟩ acts s) :
    (∀ r ∈ s.db.rowsOf a, r.seq ≤ s.cursor → r ∈ s.delivered) ∧
      s.handedOut.Pairwise (· < ·) ∧
      (s.db.rowsOf a).Pairwise (fun r r' => r.seq ≠ r'.seq) ∧
      ∀ r ∈ s.db.rowsOf a, ∀ limit out, pullSql s.db a s.cursor limit = .ok out →
        out.more = false → r ∈ s.delivered ++ out.items := by
  have H₀ : ReaderInv a (⟨db, 0, [], []⟩ : LogReader δ) :=
    ⟨.empty hdb, Nat.zero_le _, by simp [hdb], .nil, by simp⟩
  have H : ReaderInv a s := h.invariant (fun _ H h => H.step h) H₀
  refine ⟨H.delivered, H.sorted, pairwise_map.mp H.log.seqs_nodup, ?_⟩
  intro r hr limit out hout hmore
  exact H.complete hout hmore r hr

end

/-- Pages of one item: the row read first is overwritten, the row with the highest number is
deleted, and the next push is numbered above it. -/
theorem reader_run_pages :
    let s : LogReader String :=
      ⟨⟨[⟨1, "ada", "p", "h", default, "v", 4, 2⟩], [], [⟨1, 2, "y", "b", 7⟩, ⟨1, 4, "z", "d", 9⟩]⟩,
        2, [⟨1, "x", "a", 7⟩, ⟨2, "y", "b", 7⟩], [1, 2, 3, 4]⟩
    (∀ r ∈ s.db.rowsOf 1, r.seq ≤ s.cursor → r ∈ s.delivered) ∧
      s.handedOut.Pairwise (· < ·) ∧
      (s.db.rowsOf 1).Pairwise (fun r r' => r.seq ≠ r'.seq) ∧
      ∀ r ∈ s.db.rowsOf 1, ∀ limit out, pullSql s.db 1 s.cursor limit = .ok out →
        out.more = false → r ∈ s.delivered ++ out.items :=
  @reader_run _ _ 1 ⟨[⟨1, "ada", "p", "h", default, "v", 0, 0⟩], [], []⟩
    [.client (.push 1 [⟨"x", "a"⟩, ⟨"y", "b"⟩] 100 7), .pull 1,
      .client (.push 1 [⟨"x", "c"⟩] 100 8), .client (.delete 1 ["x"]),
      .client (.push 1 [⟨"z", "d"⟩] 100 9), .pull 1]
    _ rfl (.of_exec (by decide))

end Bluetalk.Relay

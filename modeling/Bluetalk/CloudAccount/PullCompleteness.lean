import Bluetalk.CloudAccount.PullRemote
import Bluetalk.Relay.SyncLogInvariants

/-!
# What a pull passes over

`pullRemote` against a server whose log is written to between the pages. The page may be cut
anywhere (`pullPage`); the relay cuts it at a number of items. The loop moves its cursor to the
last number of the log after every page, so it passes over the rows that the page left out: a pull
is complete exactly when no row that a request cut off is still in the log at the end.
-/

open List

namespace Bluetalk.Relay

variable {δ : Type}

/-- A page of the rows beyond the cursor, cut where `cut` says: by items, by bytes, anyhow. -/
def pullPage (cut : List (SyncRow δ) → Nat) (db : Db δ) (a after : Nat) :
    Except AccountError (PullOut δ) :=
  match db.account? a with
  | none => .error .unauthorized
  | some acc =>
    let n := cut (beyond SyncRow.seq after (db.rowsOf a))
    .ok ⟨page SyncRow.seq after n (db.rowsOf a), acc.nextSeq,
      !(cutOff SyncRow.seq after n (db.rowsOf a)).isEmpty⟩

theorem pullSql_eq_pullPage (db : Db δ) (a after limit : Nat) :
    pullSql db a after limit = pullPage (fun _ => limit) db a after := by
  cases h : pullSql db a after limit with
  | error e =>
    cases hacc : db.account? a with
    | none => simpa [pullSql, pullPage, hacc] using h.symm
    | some acc => simp [pullSql, hacc] at h
  | ok out =>
    obtain ⟨hitems, hseq, hmore⟩ := pullSql_ok h
    cases hacc : db.account? a with
    | none => simp [pullSql, hacc] at h
    | some acc =>
      obtain ⟨items, latestSeq, more⟩ := out
      simp only [Db.nextSeq, hacc, Option.map_some, Option.getD_some] at hitems hseq hmore
      simp only [pullPage, hacc, hitems, hseq, Except.ok.injEq, PullOut.mk.injEq, true_and]
      rw [Bool.eq_iff_iff, hmore]
      simp

theorem pullPage_ok {cut : List (SyncRow δ) → Nat} {db : Db δ} {a after : Nat} {out : PullOut δ}
    (h : pullPage cut db a after = .ok out) :
    out.items = page SyncRow.seq after (cut (beyond SyncRow.seq after (db.rowsOf a))) (db.rowsOf a) ∧
      out.latestSeq = db.nextSeq a ∧
      (out.more = true ↔
        cutOff SyncRow.seq after (cut (beyond SyncRow.seq after (db.rowsOf a))) (db.rowsOf a) ≠ []) := by
  simp only [pullPage] at h
  split at h
  · cases h
  next acc hacc => cases h; simp [Db.nextSeq, hacc]

end Bluetalk.Relay

namespace Bluetalk.CloudAccount
open Relay

variable {δ : Type}

/-- What one turn of the loop meets: the database at that moment and where its page is cut. -/
structure ServerRound (δ : Type) where
  running : Bool
  db : Db δ
  cut : List (SyncRow δ) → Nat

namespace ServerRound

def round (a : Nat) (r : ServerRound δ) : Round δ := ⟨r.running, pullPage r.cut r.db a⟩

/-- The page that the turn fetches from cursor `after`. -/
def page (r : ServerRound δ) (a after : Nat) : List (SyncRow δ) :=
  Bluetalk.page SyncRow.seq after (r.cut (beyond SyncRow.seq after (r.db.rowsOf a))) (r.db.rowsOf a)

/-- The rows beyond the cursor that the page leaves out. -/
def cutOff (r : ServerRound δ) (a after : Nat) : List (SyncRow δ) :=
  Bluetalk.cutOff SyncRow.seq after (r.cut (beyond SyncRow.seq after (r.db.rowsOf a)))
    (r.db.rowsOf a)

end ServerRound

/-- Pushes and deletes come between the turns: `db` is the database before the first of them, `db'`
the one after the last. -/
inductive Served [Blob δ] : Db δ → List (ServerRound δ) → Db δ → Prop
  | nil {db db' acts} : FreeRun logStep db acts db' → Served db [] db'
  | cons {db db' acts r rounds} :
    FreeRun logStep db acts r.db → Served r.db rounds db' → Served db (r :: rounds) db'

/-- Some request of the loop cuts off a row that is in the log at the end. The first request is made
from `after`, the next one from the last number of the log that the first one met, as long as
pages are full. -/
def PassesOver (a : Nat) (db' : Db δ) : Nat → List (ServerRound δ) → Prop
  | _, [] => False
  | after, r :: rounds =>
    r.running ∧ ((∃ x ∈ r.cutOff a after, x ∈ db'.rowsOf a) ∨
      (r.page a after ≠ [] ∧ r.cutOff a after ≠ [] ∧
        PassesOver a db' (max after (r.db.nextSeq a)) rounds))

section
variable [Blob δ] {a : Nat} {db db' : Db δ} {r : ServerRound δ} {rounds : List (ServerRound δ)}
  {env : PullEnv δ} {st st' : PullState δ} {out : PullOut δ}

theorem Served.log (h : Served db rounds db') (H : db.LogInv a) : db.Grows db' a := by
  induction h with
  | nil hrun => exact (logRun_log hrun H).2
  | cons hrun _ ih =>
    obtain ⟨H₁, hgrows⟩ := logRun_log hrun H
    exact hgrows.trans (ih H₁)

omit [Blob δ] in
theorem processPage_ok (hout : pullPage r.cut r.db a st.after = .ok out) (H : r.db.LogInv a)
    (h : processPage env st out = .ok st') :
    st'.after = max st.after (r.db.nextSeq a) ∧
      st'.seen.map (·.1) = st.seen.map (·.1) ++ r.page a st.after ∧
      (st'.more = true ↔ r.page a st.after ≠ [] ∧ r.cutOff a st.after ≠ []) := by
  obtain ⟨hitems, hlast, hmore⟩ := pullPage_ok hout
  simp only [processPage] at h
  split at h
  · cases h
  next st₁ hst₁ =>
  cases h
  obtain ⟨hafter, hseen, -⟩ := processItems_ok hst₁
  refine ⟨?_, by rw [hseen, hitems]; rfl, ?_⟩
  · -- no item of the page is numbered above the last number of the log
    have hle : ∀ item ∈ out.items, item.seq ≤ r.db.nextSeq a := by
      intro item hitem
      rw [hitems] at hitem
      exact H.le _ (mem_of_mem_page hitem).1
    apply Nat.le_antisymm
    · refine Nat.max_le.mpr ⟨?_, by omega⟩
      exact hafter ▸ lastOf_le.mpr ⟨Nat.le_max_left .., fun item hitem =>
        (hle item hitem).trans (Nat.le_max_right ..)⟩
    · have := (lastOf_le.mp hafter.ge).1
      simp only [hlast]
      omega
  · simp only [Bool.and_eq_true, hmore, hitems, Bool.not_eq_true', isEmpty_eq_false_iff]
    exact and_comm

/-- A turn of the loop keeps what it had seen, and adds rows beyond its cursor. -/
theorem pullLoop_ok (hs : Served db rounds db') (H : db.LogInv a)
    (h : pullLoop env st (rounds.map (·.round a)) = .ok st') :
    st.after ≤ st'.after ∧ (∀ x ∈ st.seen.map (·.1), x ∈ st'.seen.map (·.1)) ∧
      ∀ x ∈ st'.seen.map (·.1), x ∈ st.seen.map (·.1) ∨ st.after < x.seq := by
  induction hs generalizing st with
  | nil =>
    simp only [map_nil, pullLoop] at h
    split at h
    · cases h
    · cases h; exact ⟨Nat.le_refl _, fun _ h => h, fun _ h => .inl h⟩
  | @cons _ _ _ r rounds hrun _ ih =>
    have H₁ := (logRun_log hrun H).1
    simp only [map_cons, pullLoop] at h
    split at h
    · cases h; exact ⟨Nat.le_refl _, fun _ h => h, fun _ h => .inl h⟩
    split at h
    · cases h
    next out hout =>
    split at h
    · cases h
    next st₁ hst₁ =>
    obtain ⟨hafter, hseen, -⟩ := processPage_ok hout H₁ hst₁
    obtain ⟨hle, hkept, hnew⟩ := ih H₁ h
    have hle₁ : st.after ≤ st₁.after := hafter ▸ Nat.le_max_left ..
    refine ⟨hle₁.trans hle, fun x hx => hkept x ?_, fun x hx => ?_⟩
    · rw [hseen]; exact mem_append_left _ hx
    rcases hnew x hx with hx | hlt
    · rw [hseen, mem_append] at hx
      exact hx.imp_right fun hx => (mem_of_mem_page hx).2
    · exact .inr (hle₁.trans_lt hlt)

/-- A turn of the loop sees every row between its cursors iff it passes over none. -/
theorem pullLoop_complete_iff (hs : Served db rounds db') (H : db.LogInv a)
    (hseen : ∀ x ∈ st.seen.map (·.1), x.seq ≤ st.after) (hmore : st.more = true)
    (h : pullLoop env st (rounds.map (·.round a)) = .ok st') :
    (∀ x ∈ db'.rowsOf a, st.after < x.seq → x.seq ≤ st'.after → x ∈ st'.seen.map (·.1)) ↔
      ¬PassesOver a db' st.after rounds := by
  induction hs generalizing st with
  | nil => simp [pullLoop, hmore] at h
  | @cons _ db' _ r rounds hrun hs ih =>
    obtain ⟨H₁, -⟩ := logRun_log hrun H
    simp only [map_cons, pullLoop] at h
    split at h
    · next hstop =>
      have hidle : r.running = false := by simpa [hmore, ServerRound.round] using hstop
      cases h
      simp only [PassesOver, hidle, Bool.false_eq_true, false_and, not_false_iff, iff_true]
      intro x _ hlt hle
      omega
    next hgo =>
    have hgo : r.running = true := by simpa [hmore, ServerRound.round] using hgo
    split at h
    · cases h
    next out hout =>
    split at h
    · cases h
    next st₁ hst₁ =>
    obtain ⟨hafter, hseen₁, hmore₁⟩ := processPage_ok hout H₁ hst₁
    obtain ⟨hle, hkept, hnew⟩ := pullLoop_ok hs H₁ h
    -- the rows at the end that this turn could have met
    have hold : ∀ x ∈ db'.rowsOf a, x.seq ≤ r.db.nextSeq a → x ∈ r.db.rowsOf a :=
      (hs.log H₁).old
    have hbound : ∀ x ∈ st₁.seen.map (·.1), x.seq ≤ st₁.after := by
      intro x hx
      rw [hseen₁, mem_append] at hx
      rw [hafter]
      rcases hx with hx | hx
      · exact (hseen x hx).trans (Nat.le_max_left ..)
      · exact (H₁.le x (mem_of_mem_page hx).1).trans (Nat.le_max_right ..)
    have hrest : st₁.more = true →
        ((∀ x ∈ db'.rowsOf a, st₁.after < x.seq → x.seq ≤ st'.after → x ∈ st'.seen.map (·.1)) ↔
          ¬PassesOver a db' st₁.after rounds) := fun hm => ih H₁ hbound hm h
    constructor
    · rintro hall ⟨-, ⟨x, hcut, hx⟩ | ⟨hpage, hcut, hpass⟩⟩
      · have hlt := (mem_of_mem_cutOff hcut).2
        have hlast : x.seq ≤ st₁.after :=
          hafter ▸ (H₁.le x (mem_of_mem_cutOff hcut).1).trans (Nat.le_max_right ..)
        rcases hnew x (hall x hx hlt (hlast.trans hle)) with hx₁ | hlt₁
        · rw [hseen₁, mem_append] at hx₁
          rcases hx₁ with hx₁ | hx₁
          · exact absurd (hseen x hx₁) (by omega)
          · exact lt_irrefl _ (stamp_lt_of_mem_cutOff H₁.seqs_nodup hx₁ hcut)
        · omega
      · rw [← hafter] at hpass
        refine (hrest (hmore₁.mpr ⟨hpage, hcut⟩)).mp (fun x hx hlt hle' => ?_) hpass
        exact hall x hx (lt_of_le_of_lt (hafter ▸ Nat.le_max_left ..) hlt) hle'
    · intro hpass x hx hlt hle'
      rcases Nat.lt_or_ge st₁.after x.seq with hbeyond | hwithin
      · cases hm : st₁.more with
        | false =>
          have : st' = st₁ := by
            cases rounds with
            | nil | cons r rounds => simpa [pullLoop, hm] using h.symm
          rw [this] at hle'
          omega
        | true =>
          refine (hrest hm).mpr (fun hp => hpass ⟨hgo, .inr ?_⟩) x hx hbeyond hle'
          exact ⟨(hmore₁.mp hm).1, (hmore₁.mp hm).2, hafter ▸ hp⟩
      · have hmem := hold x hx (by rw [hafter] at hwithin; omega)
        rcases mem_page_or_cutOff hmem hlt with hpage | hcut
        · exact hkept x (hseen₁ ▸ mem_append_right _ hpage)
        · exact absurd ⟨hgo, .inl ⟨x, hcut, hx⟩⟩ hpass

/-- A pull is complete exactly when it passes over no row that is in the log at its end: the rows of
the log between the old cursor and the new one were all on a page. -/
theorem pullRemote_complete_iff {d : Device} (hdb : db.rowsOf a = []) (hs : Served db rounds db')
    (h : (pullRemote env d (rounds.map (·.round a))).error = none) :
    (∀ x ∈ db'.rowsOf a, d.lastSeq < x.seq →
      x.seq ≤ (pullRemote env d (rounds.map (·.round a))).dev.lastSeq →
        ∃ o, (x, o) ∈ (pullRemote env d (rounds.map (·.round a))).seen) ↔
      ¬PassesOver a db' d.lastSeq rounds := by
  simp only [pullRemote] at h ⊢
  split at h
  · cases h
  next st hst =>
  have := pullLoop_complete_iff hs (LogInv.empty hdb) (by simp [PullState.start]) rfl hst
  simpa only [hst, PullState.start, finishPull_lastSeq, mem_map, Prod.exists,
    exists_and_right, exists_eq_right] using this

end

local instance instBlobLog : Blob Op := ⟨fun _ => 100, fun _ => 100⟩

/-- A log of two contacts on one page. -/
theorem pullRemote_complete_two_rows :
    let ann : SyncRow Op := ⟨1, "k1", ⟨5, "b", .storeEntry "contacts" "ann" (some (.obj []))⟩, 7⟩
    let bob : SyncRow Op := ⟨2, "k2", ⟨6, "b", .storeEntry "contacts" "bob" (some (.obj []))⟩, 7⟩
    let db : Db Op := ⟨[⟨1, "ada", "p", "h", default, "v", 2, 200⟩], [], [⟨1, ann⟩, ⟨1, bob⟩]⟩
    let rounds : List (ServerRound Op) := [⟨true, db, fun _ => 200⟩]
    let pulled := pullRemote plainEnv (.fresh .web "a") (rounds.map (·.round 1))
    (∀ x ∈ db.rowsOf 1, 0 < x.seq → x.seq ≤ pulled.dev.lastSeq → ∃ o, (x, o) ∈ pulled.seen) ↔
      ¬PassesOver 1 db 0 rounds := by
  intro ann bob db rounds
  have hpush : FreeRun logStep (⟨[⟨1, "ada", "p", "h", default, "v", 0, 0⟩], [], []⟩ : Db Op)
      [.push 1 [⟨"k1", ann.data⟩, ⟨"k2", bob.data⟩] 1000 7] db := .of_exec (by decide)
  have hserved : Served (⟨[⟨1, "ada", "p", "h", default, "v", 0, 0⟩], [], []⟩ : Db Op) rounds db :=
    .cons hpush (.nil .nil)
  have hpull : (pullRemote plainEnv (.fresh .web "a") (rounds.map (·.round 1))).error = none := rfl
  exact pullRemote_complete_iff rfl hserved hpull

/-- The same log, one contact to a page: the first page comes with the number of the
second contact, and the second request asks for what lies beyond it. -/
theorem pullRemote_skips_second_row :
    let db₀ : Db Op := ⟨[⟨1, "ada", "p", "h", default, "v", 0, 0⟩], [], []⟩
    let ann : SyncRow Op := ⟨1, "k1", ⟨5, "b", .storeEntry "contacts" "ann" (some (.obj []))⟩, 7⟩
    let bob : SyncRow Op := ⟨2, "k2", ⟨6, "b", .storeEntry "contacts" "bob" (some (.obj []))⟩, 7⟩
    let db : Db Op := ⟨[⟨1, "ada", "p", "h", default, "v", 2, 200⟩], [], [⟨1, ann⟩, ⟨1, bob⟩]⟩
    let rounds : List (ServerRound Op) := [⟨true, db, fun _ => 1⟩, ⟨true, db, fun _ => 1⟩]
    let pulled := pullRemote plainEnv (.fresh .web "a") (rounds.map (·.round 1))
    Served db₀ rounds db ∧ pulled.error = none ∧
      bob ∈ db.rowsOf 1 ∧ 0 < bob.seq ∧ bob.seq ≤ pulled.dev.lastSeq ∧
        ∀ o, (bob, o) ∉ pulled.seen := by
  intro db₀ ann bob db rounds pulled
  have hpush : FreeRun logStep db₀
      [.push 1 [⟨"k1", ann.data⟩, ⟨"k2", bob.data⟩] 1000 7] db := .of_exec (by decide)
  refine ⟨.cons hpush (.cons .nil (.nil .nil)), rfl, by decide, by decide, by decide, ?_⟩
  have hseen : pulled.seen = [(ann, .applied)] := rfl
  intro o
  cases o <;> rw [hseen] <;> decide

end Bluetalk.CloudAccount

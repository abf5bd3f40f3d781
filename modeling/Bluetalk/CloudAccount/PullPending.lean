import Bluetalk.CloudAccount.PullRemote

/-!
# What a pull does to the outbox

A pull removes a pending change as soon as it opens an item of the same logical key whose
timestamp, `item.ts || op.ts`, is not below the change's. `item.ts` is the time at which the server
took the item, and the echo of the device's own push is opened like any other item, so a pending
change can go without any other device having written its key.
-/

open List

namespace Bluetalk.CloudAccount
open Storage Relay

variable {δ : Type} {env : PullEnv δ} {d : Device} {c : Change}

/-- The item makes the loop drop the change. -/
def Hits (env : PullEnv δ) (item : SyncRow δ) (c : Change) : Prop :=
  ∃ op, env.openItem item = some op ∧ logicalKeyOfOp op = logicalKeyOf c ∧ c.ts ≤ remoteTs item op

/-- The item carries an operation of another device that is as new as the change. -/
def Supersedes (env : PullEnv δ) (origin : String) (item : SyncRow δ) (c : Change) : Prop :=
  ∃ op, env.openItem item = some op ∧ logicalKeyOfOp op = logicalKeyOf c ∧ op.origin ≠ origin ∧
    c.ts ≤ op.ts

theorem logicalKeyOf_ne_empty : logicalKeyOf c ≠ "" := by
  cases h : c.body <;> simp [logicalKeyOf, ChangeBody.logicalKey, storeEntryKey, h]

theorem mem_dropForItem {box : List Change} {item : SyncRow δ} {op : Op} :
    c ∈ dropForItem box item op ↔
      c ∈ box ∧ ¬(logicalKeyOfOp op = logicalKeyOf c ∧ c.ts ≤ remoteTs item op) := by
  simp only [dropForItem]
  split
  · next h =>
    have := logicalKeyOf_ne_empty (c := c)
    simp [h, this.symm]
  · simp only [dropOutboxIfRemoteNewer, mem_filter, decide_eq_true_eq]
    rw [not_and_or, not_le, eq_comm]

/-- The outbox is what the items opened so far have left of the one at the start. -/
def OutboxLeft (env : PullEnv δ) (d : Device) (st : PullState δ) : Prop :=
  ∀ c, c ∈ st.dev.outbox ↔ c ∈ d.outbox ∧ ∀ y ∈ st.seen, ¬Hits env y.1 c

section
variable {st st' : PullState δ} {item : SyncRow δ} {items : List (SyncRow δ)} {out : PullOut δ}
  {rounds : List (Round δ)}

variable (item) in
theorem OutboxLeft.processItem (H : OutboxLeft env d st) :
    OutboxLeft env d (stateOf (processItem env st item)) := by
  -- an item that does not open hits nothing, any other drops what it hits
  have hstep : ∀ {st' : PullState δ} {o}, st'.seen = st.seen ++ [(item, o)] →
      (∀ c, c ∈ st'.dev.outbox ↔ c ∈ st.dev.outbox ∧ ¬Hits env item c) → OutboxLeft env d st' := by
    intro st' o hseen hbox c
    rw [hbox c, H c, hseen]
    simp only [mem_append, mem_singleton, or_imp, forall_and, forall_eq, and_assoc]
  have hop : ∀ {op}, env.openItem item = some op → ∀ c,
      c ∈ dropForItem st.dev.outbox item op ↔ c ∈ st.dev.outbox ∧ ¬Hits env item c := by
    intro op hopen c
    simp only [mem_dropForItem, Hits, hopen, Option.some.injEq, exists_eq_left']
  simp only [CloudAccount.processItem]
  split
  · next hopen => exact hstep rfl fun c => by simp [Hits, hopen]
  next op hopen =>
  split
  · exact hstep rfl (hop hopen)
  split
  · exact hstep rfl (hop hopen)
  · next happly =>
    obtain ⟨_, _, rfl⟩ := applyOp_frame happly
    exact hstep rfl (hop hopen)
  · next happly =>
    obtain ⟨_, _, rfl⟩ := applyOp_frame happly
    exact hstep rfl (hop hopen)

variable (items) in
theorem OutboxLeft.processItems (H : OutboxLeft env d st) :
    OutboxLeft env d (stateOf (processItems env st items)) := by
  induction items generalizing st with
  | nil => exact H
  | cons item items ih =>
    have H₁ := H.processItem item
    simp only [CloudAccount.processItems]
    split
    · next e he => rwa [he] at H₁
    · next st₁ hst₁ => rw [hst₁] at H₁; exact ih H₁

variable (rounds) in
theorem OutboxLeft.pullLoop (H : OutboxLeft env d st) :
    OutboxLeft env d (stateOf (pullLoop env st rounds)) := by
  induction rounds generalizing st with
  | nil => simp only [CloudAccount.pullLoop]; split <;> exact H
  | cons round rounds ih =>
    simp only [CloudAccount.pullLoop]
    split
    · exact H
    split
    · exact H
    next out _ =>
    have H₁ := H.processItems out.items
    simp only [processPage]
    split
    · next e he =>
      split at he
      · next e' he' => cases he; rwa [he'] at H₁
      · cases he
    next st₁ hst₁ =>
    split at hst₁
    · cases hst₁
    next st₂ hst₂ =>
    cases hst₁
    rw [hst₂] at H₁
    exact ih H₁

theorem mem_outbox_pullRemote :
    c ∈ (pullRemote env d rounds).dev.outbox ↔
      c ∈ d.outbox ∧ ∀ y ∈ (pullRemote env d rounds).seen, ¬Hits env y.1 c := by
  have H : OutboxLeft env d (.start d) := fun c => by simp [PullState.start]
  have H' := H.pullLoop rounds c
  simp only [pullRemote]
  split
  · next e he => rwa [he] at H'
  · next st hst => rw [hst] at H'; simpa only [stateOf, finishPull_outbox] using H'

/-- The items that the rounds answer with, one page after the other. -/
def fetched : Nat → List (Round δ) → List (SyncRow δ)
  | _, [] => []
  | after, round :: rounds =>
    if !round.running then []
    else
      match round.pull after with
      | .error _ => []
      | .ok out =>
        out.items ++ if out.more && !out.items.isEmpty then
          fetched (max (lastOf after out.items) out.latestSeq) rounds else []

theorem pullLoop_seen (hmore : st.more = true) (h : pullLoop env st rounds = .ok st') :
    st'.seen.map (·.1) = st.seen.map (·.1) ++ fetched st.after rounds := by
  induction rounds generalizing st with
  | nil => simp [pullLoop, hmore] at h
  | cons round rounds ih =>
    simp only [pullLoop, hmore, Bool.true_and] at h
    split at h
    · next hrun => cases h; simp [fetched, hrun]
    next hrun =>
    split at h
    · cases h
    next out hout =>
    have hfetched : fetched st.after (round :: rounds) =
        out.items ++ if out.more && !out.items.isEmpty then
          fetched (max (lastOf st.after out.items) out.latestSeq) rounds else [] := by
      simp [fetched, hrun, hout]
    split at h
    · cases h
    next st₁ hst₁ =>
    simp only [processPage] at hst₁
    split at hst₁
    · cases hst₁
    next st₂ hst₂ =>
    cases hst₁
    obtain ⟨hafter, hseen, -⟩ := processItems_ok hst₂
    rw [hfetched]
    cases hm : out.more && !out.items.isEmpty with
    | true =>
      rw [ih hm h, hseen, hafter, append_assoc]
      simp only [if_true]
    | false =>
      have : st'.seen = st₂.seen := by
        cases rounds with
        | nil | cons => simp only [pullLoop, hm] at h; cases h; rfl
      simp [this, hseen]

end

end Bluetalk.CloudAccount

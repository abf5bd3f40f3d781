import Mathlib.Algebra.Order.BigOperators.Group.List
import Mathlib.Algebra.Order.Group.Nat
import Bluetalk.Relay.ServerTasks

/-!
# The mailbox of the relay

`mailbox.rs`: the tables `mail` and `mail_ids`, and the jobs of the thread that owns the database. A
job runs alone. Which statements of a `post` the database refuses is an argument, `PostFaults`; byte
totals stay far below the range of an `i64`.
-/

open List Option

namespace Bluetalk.Relay

def maxMailBody : Nat := 1024 * 1024
def mailPerRecipient : Nat := 1000
def mailBytesPerRecipient : Nat := 128 * 1024 * 1024
def mailPerPair : Nat := 300
def mailTtlMs : Int := 30 * 24 * 60 * 60 * 1000

/-- A row of `mail`; `size` is the length of the body as text. -/
structure Mail where
  sender : String
  id : String
  recipient : String
  ts : Int
  body : Json
  size : Nat
  pushed : Bool
  deriving DecidableEq

def Mail.marked (m : Mail) : Mail := { m with pushed := true }

/-- A row of `mail_ids`. -/
structure MailId where
  sender : String
  id : String
  recipient : String
  ts : Int
  deriving DecidableEq

/-- The row of `mail_ids` that is written with a mail. -/
def Mail.mailId (m : Mail) : MailId := ⟨m.sender, m.id, m.recipient, m.ts⟩

/-- The primary keys of the two tables. -/
def Mail.key (m : Mail) : String × String := (m.sender, m.id)

def MailId.key (r : MailId) : String × String := (r.sender, r.id)

structure Mailbox where
  mail : List Mail := []
  mailIds : List MailId := []
  deriving DecidableEq

/-- The statements of `post_sql` and `quota_ok` that fail. -/
structure PostFaults where
  known : Bool := false
  still : Bool := false
  count : Bool := false
  bytes : Bool := false
  pair : Bool := false
  insertId : Bool := false
  insertMail : Bool := false

namespace Mailbox

variable (box : Mailbox) (faults : PostFaults) (sender id recipient : String) (body : Json)
  (size : Nat) (now : Int)

/-- `SELECT 1 FROM mail_ids WHERE sender = ?1 AND id = ?2` -/
def recorded : Bool := box.mailIds.any fun r => r.sender = sender ∧ r.id = id

/-- The row of `mail` under the primary key. -/
def find? : Option Mail := box.mail.find? fun m => m.sender = sender ∧ m.id = id

/-- The rows that the quotas count. -/
def mailsFor : List Mail := box.mail.filter fun m => m.recipient = recipient

def mailsFrom : List Mail := (box.mailsFor recipient).filter fun m => m.sender = sender

/-- `quota_ok`: a count that cannot be had is taken for a full one. -/
def quotaOk : Bool :=
  !faults.count && (box.mailsFor recipient).length < mailPerRecipient &&
    (!faults.bytes && ((box.mailsFor recipient).map (·.size)).sum + size ≤ mailBytesPerRecipient) &&
    (!faults.pair && (box.mailsFrom sender recipient).length < mailPerPair)

/-- `INSERT INTO mail_ids`; `none` where the statement fails or the key is taken. -/
def insertId : Option Mailbox :=
  if faults.insertId || box.recorded sender id then none
  else some { box with mailIds := box.mailIds ++ [⟨sender, id, recipient, now⟩] }

/-- `INSERT INTO mail` -/
def insertMail : Option Mailbox :=
  if faults.insertMail || (box.find? sender id).isSome then none
  else some { box with mail := box.mail ++ [⟨sender, id, recipient, now, body, size, false⟩] }

def postSql : PostOutcome × Mailbox :=
  if !faults.known && box.recorded sender id then
    let status := match if faults.still then none else box.find? sender id with
      | some m => if m.pushed then "delivered" else "stored"
      | none => "delivered"
    (.duplicate status, box)
  else if !box.quotaOk faults sender recipient size then (.failed "quota", box)
  else
    match box.insertId faults sender id recipient now with
    | none => (.failed "invalid", box)
    | some box =>
      match box.insertMail faults sender id recipient body size now with
      | none => (.failed "invalid", box)
      | some box => (.stored, box)

/-- `Mailbox::post` -/
def post : PostOutcome × Mailbox :=
  if maxMailBody < size then (.failed "too_large", box)
  else box.postSql faults sender id recipient body size now

/-- `list_sql`: the rows for a recipient, the oldest first. -/
def list : List Mail := (box.mailsFor recipient).insertionSort (·.ts ≤ ·.ts)

def ack (ids : List String) : Mailbox :=
  { box with mail := box.mail.filter fun m => ¬(m.recipient = recipient ∧ m.id ∈ ids) }

def markPushed : Mailbox :=
  { box with mail := box.mail.map fun m => if m.sender = sender ∧ m.id = id then m.marked else m }

/-- What is older than thirty days goes from both tables. -/
def cleanup : Mailbox where
  mail := box.mail.filter fun m => ¬ m.ts < now - mailTtlMs
  mailIds := box.mailIds.filter fun r => ¬ r.ts < now - mailTtlMs

end Mailbox

/-- The jobs that change the tables. -/
inductive MailboxJob
  | post (faults : PostFaults) (sender id recipient : String) (body : Json) (size : Nat) (now : Int)
  | ack (recipient : String) (ids : List String)
  | markPushed (sender id : String)
  | cleanup (now : Int)

namespace Mailbox

def handle (box : Mailbox) : MailboxJob → Mailbox
  | .post faults sender id recipient body size now =>
    (box.post faults sender id recipient body size now).2
  | .ack recipient ids => box.ack recipient ids
  | .markPushed sender id => box.markPushed sender id
  | .cleanup now => box.cleanup now

def step (box : Mailbox) (job : MailboxJob) : Option Mailbox := some (box.handle job)

variable {box box' : Mailbox} {faults : PostFaults} {sender id recipient : String} {body : Json}
  {size : Nat} {now : Int} {m : Mail} {r : MailId}

/-! ## What a post does -/

theorem recorded_iff : box.recorded sender id ↔
    ∃ r ∈ box.mailIds, r.sender = sender ∧ r.id = id := by
  simp [recorded]

/-- The id is recorded for a mail that is refused then. -/
def halfDone (box : Mailbox) (faults : PostFaults) (sender id recipient : String) (size : Nat) :
    Bool :=
  size ≤ maxMailBody && box.quotaOk faults sender recipient size &&
    !faults.insertId && !box.recorded sender id &&
    (faults.insertMail || (box.find? sender id).isSome)

/-- What comes of a post. -/
inductive Posted (box : Mailbox) (faults : PostFaults) (sender id recipient : String) (body : Json)
    (size : Nat) (now : Int) : PostOutcome → Mailbox → Prop
  | failed {code} (h : box.halfDone faults sender id recipient size = false) :
      Posted box faults sender id recipient body size now (.failed code) box
  | duplicate {status} (h : box.recorded sender id) :
      Posted box faults sender id recipient body size now (.duplicate status) box
  | half (h : box.halfDone faults sender id recipient size) :
      Posted box faults sender id recipient body size now (.failed "invalid")
        { box with mailIds := box.mailIds ++ [⟨sender, id, recipient, now⟩] }
  | stored (hsize : size ≤ maxMailBody) (hquota : box.quotaOk faults sender recipient size)
      (hid : box.recorded sender id = false) (hfault : faults.insertMail = false)
      (hmail : box.find? sender id = none) :
      Posted box faults sender id recipient body size now .stored
        { mail := box.mail ++ [⟨sender, id, recipient, now, body, size, false⟩]
          mailIds := box.mailIds ++ [⟨sender, id, recipient, now⟩] }

theorem post_posted (box : Mailbox) (faults : PostFaults) (sender id recipient : String)
    (body : Json) (size : Nat) (now : Int) :
    Posted box faults sender id recipient body size now
      (box.post faults sender id recipient body size now).1
      (box.post faults sender id recipient body size now).2 := by
  rw [post]
  split
  next hsize =>
    refine .failed ?_
    simp [halfDone, Nat.not_le.mpr hsize]
  next hsize =>
  rw [Nat.not_lt] at hsize
  rw [postSql]
  split
  next hknown =>
    rw [Bool.and_eq_true] at hknown
    exact .duplicate hknown.2
  split
  next hquota =>
    rw [Bool.not_eq_true'] at hquota
    refine .failed ?_
    simp [halfDone, hquota]
  next hquota =>
  rw [Bool.not_eq_true, Bool.not_eq_false'] at hquota
  rw [insertId]
  split
  next hid =>
    split at hid
    next hrefused =>
      refine .failed ?_
      rw [Bool.or_eq_true] at hrefused
      rcases hrefused with h | h <;> simp [halfDone, h]
    next => cases hid
  next box₁ hid =>
  split at hid
  · cases hid
  next haccepted =>
  cases hid
  rw [Bool.or_eq_true, not_or] at haccepted
  obtain ⟨hfault, hrecorded⟩ := haccepted
  rw [insertMail]
  split
  next hmail =>
    split at hmail
    next hrefused =>
      have hrefused : (faults.insertMail || (box.find? sender id).isSome) = true := hrefused
      refine .half ?_
      simp only [halfDone, hsize, hquota, hfault, hrecorded, hrefused]
      rfl
    next => cases hmail
  next box₂ hmail =>
  split at hmail
  · cases hmail
  next haccepted =>
  cases hmail
  rw [Bool.or_eq_true, not_or, Bool.not_eq_true] at haccepted
  exact .stored hsize hquota (Bool.not_eq_true _ ▸ hrecorded) haccepted.1
    (not_isSome_iff_eq_none.mp haccepted.2)

theorem Posted.known (h : Posted box faults sender id recipient body size now (.duplicate status)
    box') : box.recorded sender id := by
  cases h with
  | duplicate h => exact h

theorem post_of_room (hsize : size ≤ maxMailBody) (hquota : box.quotaOk {} sender recipient size)
    (hid : box.recorded sender id = false) (hmail : box.find? sender id = none) :
    (box.post {} sender id recipient body size now).1 = .stored := by
  rw [post, if_neg (Nat.not_lt.mpr hsize), postSql, if_neg (by simp [hid]), if_neg (by simp [hquota])]
  have hinsert : box.insertId {} sender id recipient now =
      some { box with mailIds := box.mailIds ++ [⟨sender, id, recipient, now⟩] } := by
    simp [insertId, hid]
  simp only [hinsert]
  rw [insertMail, if_neg (by simpa [find?] using hmail)]

/-- A post that reports failure changed nothing, and unless the mail had been accepted before, a
retry is not taken for a duplicate and is stored where there is room. -/
def FailsClean (box : Mailbox) (faults : PostFaults) (sender id recipient : String) (body : Json)
    (size : Nat) (now : Int) : Prop :=
  ∀ code box', box.post faults sender id recipient body size now = (.failed code, box') →
    box' = box ∧
      (box.recorded sender id = false →
        (∀ faults' now' status,
          (box'.post faults' sender id recipient body size now').1 ≠ .duplicate status) ∧
        (∀ now', size ≤ maxMailBody → box.quotaOk {} sender recipient size →
          box.find? sender id = none →
          (box'.post {} sender id recipient body size now').1 = .stored))

/-- A failed post leaves the tables as they were exactly when it was not half done: when the id was
not recorded for a mail that was refused then. -/
theorem post_failsClean_iff (box : Mailbox) (faults : PostFaults) (sender id recipient : String)
    (body : Json) (size : Nat) (now : Int) :
    box.FailsClean faults sender id recipient body size now ↔
      box.halfDone faults sender id recipient size = false := by
  have hposted := post_posted box faults sender id recipient body size now
  constructor
  · intro hclean
    rw [← Bool.not_eq_true]
    intro hhalf
    have hnew : box.recorded sender id = false ∧
        (faults.insertMail = true ∨ (box.find? sender id).isSome = true) := by
      simp only [halfDone, Bool.and_eq_true, Bool.not_eq_true', Bool.or_eq_true] at hhalf
      exact ⟨hhalf.1.2, hhalf.2⟩
    obtain ⟨hnew, hrefused⟩ := hnew
    rw [FailsClean] at hclean
    revert hclean hposted
    generalize box.post faults sender id recipient body size now = result
    obtain ⟨outcome, box'⟩ := result
    intro hposted hclean
    cases hposted with
    | failed h => exact Bool.false_ne_true (h.symm.trans hhalf)
    | duplicate h => exact Bool.false_ne_true (hnew.symm.trans h)
    | half =>
      -- the row of the id is new
      have hsame := congrArg (fun b => b.mailIds.length) (hclean _ _ rfl).1
      simp at hsame
    | stored _ _ _ hfault hmail => simp [hfault, hmail] at hrefused
  · intro hhalf code box' hcode
    rw [hcode] at hposted
    obtain rfl : box' = box := by
      cases hposted with
      | failed => rfl
      | half h => exact absurd (hhalf.symm.trans h) Bool.false_ne_true
    refine ⟨rfl, fun hnew => ⟨fun faults' now' status h => ?_, fun now' hsize hquota hmail =>
      post_of_room hsize hquota hnew hmail⟩⟩
    have hposted' := post_posted box' faults' sender id recipient body size now'
    rw [h] at hposted'
    exact Bool.false_ne_true (hnew.symm.trans hposted'.known)

/-- The insert of the body fails after that of the id: the tables are not as before, and the retry
is reported as delivered. -/
theorem failed_post_recorded : ¬ ∀ (box : Mailbox) faults sender id recipient body size now,
    box.FailsClean faults sender id recipient body size now := by
  intro h
  have hclean := h {} { insertMail := true } "a" "m1" "b" .null 4 0 "invalid"
    { mailIds := [⟨"a", "m1", "b", 0⟩] } (by decide)
  exact absurd hclean.1 (by decide)

/-! ## What every run keeps -/

/-- The quotas of every recipient and of every pair. -/
structure WithinQuotas (box : Mailbox) : Prop where
  count : ∀ recipient, (box.mailsFor recipient).length ≤ mailPerRecipient
  bytes : ∀ recipient, ((box.mailsFor recipient).map (·.size)).sum ≤ mailBytesPerRecipient
  pair : ∀ sender recipient, (box.mailsFrom sender recipient).length ≤ mailPerPair

structure Wf (box : Mailbox) : Prop where
  quotas : box.WithinQuotas
  recorded : ∀ m ∈ box.mail, m.mailId ∈ box.mailIds
  mailKeys : (box.mail.map (·.key)).Nodup
  idKeys : (box.mailIds.map (·.key)).Nodup

theorem WithinQuotas.empty : WithinQuotas {} where
  count _ := Nat.zero_le _
  bytes _ := Nat.zero_le _
  pair _ _ := Nat.zero_le _

theorem Wf.empty : Wf {} where
  quotas := .empty
  recorded _ hm := absurd hm not_mem_nil
  mailKeys := .nil
  idKeys := .nil

theorem WithinQuotas.sublist (H : box.WithinQuotas) (h : box'.mail.Sublist box.mail) :
    box'.WithinQuotas where
  count recipient := (h.filter _).length_le.trans (H.count recipient)
  bytes recipient := (((h.filter _).map _).sum_le_sum (by simp)).trans (H.bytes recipient)
  pair sender recipient := ((h.filter _).filter _).length_le.trans (H.pair sender recipient)

@[simp] theorem mailsFor_append (l : List Mail) (ids : List MailId) :
    mailsFor ⟨box.mail ++ l, ids⟩ recipient = box.mailsFor recipient ++ mailsFor ⟨l, []⟩ recipient :=
  filter_append ..

theorem WithinQuotas.snoc (H : box.WithinQuotas)
    (hquota : box.quotaOk faults m.sender m.recipient m.size) (ids : List MailId) :
    WithinQuotas ⟨box.mail ++ [m], ids⟩ := by
  simp only [quotaOk, Bool.and_eq_true, decide_eq_true_eq] at hquota
  obtain ⟨⟨⟨-, hcount⟩, -, hbytes⟩, -, hpair⟩ := hquota
  constructor
  · intro recipient
    by_cases hr : m.recipient = recipient
    · subst hr; simp [mailsFor]; exact hcount
    · simpa [mailsFor, hr] using H.count recipient
  · intro recipient
    by_cases hr : m.recipient = recipient
    · subst hr; simpa [mailsFor] using hbytes
    · simpa [mailsFor, hr] using H.bytes recipient
  · intro sender recipient
    rw [mailsFrom, mailsFor_append, filter_append]
    by_cases hr : m.recipient = recipient ∧ m.sender = sender
    · obtain ⟨rfl, rfl⟩ := hr
      have hone : (mailsFor ⟨[m], []⟩ m.recipient).filter (fun a => a.sender = m.sender) = [m] := by
        simp [mailsFor]
      rw [hone, length_append]
      exact hpair
    have hnone : (mailsFor ⟨[m], []⟩ recipient).filter (fun m => m.sender = sender) = [] := by
      simp [mailsFor, List.filter_filter]
      exact fun h h' => hr ⟨h', h⟩
    rw [hnone, append_nil]
    exact H.pair sender recipient

theorem WithinQuotas.map (H : box.WithinQuotas) {f : Mail → Mail}
    (hf : ∀ m, (f m).mailId = m.mailId ∧ (f m).size = m.size) (ids : List MailId) :
    WithinQuotas ⟨box.mail.map f, ids⟩ := by
  have hfor : ∀ recipient,
      mailsFor ⟨box.mail.map f, ids⟩ recipient = (box.mailsFor recipient).map f := by
    intro recipient
    have hrecipient : ∀ m, (f m).recipient = m.recipient := fun m => congrArg (·.recipient) (hf m).1
    simp only [mailsFor, List.filter_map, Function.comp_def, hrecipient]
  have hsender : ∀ m, (f m).sender = m.sender := fun m => congrArg (·.sender) (hf m).1
  constructor
  · intro recipient
    rw [hfor, List.length_map]
    exact H.count recipient
  · intro recipient
    rw [hfor, List.map_map]
    simpa [Function.comp_def, (hf _).2] using H.bytes recipient
  intro sender recipient
  rw [mailsFrom, hfor, List.filter_map, List.length_map]
  simp only [Function.comp_def, hsender]
  exact H.pair sender recipient

theorem Wf.sublist (H : box.Wf) (hmail : box'.mail.Sublist box.mail)
    (hids : box'.mailIds.Sublist box.mailIds)
    (hkept : ∀ m ∈ box'.mail, m.mailId ∈ box.mailIds → m.mailId ∈ box'.mailIds) : box'.Wf where
  quotas := H.quotas.sublist hmail
  recorded m hm := hkept m hm (H.recorded m (hmail.subset hm))
  mailKeys := H.mailKeys.sublist (hmail.map _)
  idKeys := H.idKeys.sublist (hids.map _)

theorem Wf.snoc (H : box.Wf) (hquota : box.quotaOk faults m.sender m.recipient m.size)
    (hid : box.recorded m.sender m.id = false) (hmail : box.find? m.sender m.id = none) :
    Wf ⟨box.mail ++ [m], box.mailIds ++ [m.mailId]⟩ := by
  have hnewMail : m.key ∉ box.mail.map (·.key) := by
    rw [List.mem_map]
    rintro ⟨m', hm', hkey⟩
    have hnone := find?_eq_none.mp hmail m' hm'
    simp only [Mail.key, Prod.mk.injEq] at hkey
    exact hnone (by simpa using hkey)
  have hnewId : m.mailId.key ∉ box.mailIds.map (·.key) := by
    rw [List.mem_map]
    rintro ⟨r, hr, hkey⟩
    simp only [MailId.key, Prod.mk.injEq] at hkey
    exact Bool.false_ne_true (hid.symm.trans (recorded_iff.mpr ⟨r, hr, hkey⟩))
  constructor
  · exact H.quotas.snoc hquota _
  · intro m' hm'
    rcases mem_append.mp hm' with hm' | hm'
    · exact mem_append_left _ (H.recorded m' hm')
    · rw [mem_singleton.mp hm']
      exact mem_append_right _ mem_cons_self
  · rw [map_append, map_singleton, ← concat_eq_append]
    exact H.mailKeys.concat hnewMail
  · rw [map_append, map_singleton, ← concat_eq_append]
    exact H.idKeys.concat hnewId

theorem Wf.half (H : box.Wf) (hid : box.recorded sender id = false) :
    Wf { box with mailIds := box.mailIds ++ [⟨sender, id, recipient, now⟩] } where
  quotas := H.quotas.sublist (List.Sublist.refl _)
  recorded m hm := mem_append_left _ (H.recorded m hm)
  mailKeys := H.mailKeys
  idKeys := by
    rw [map_append, map_singleton, ← concat_eq_append]
    refine H.idKeys.concat fun h => ?_
    obtain ⟨r, hr, hkey⟩ := mem_map.mp h
    simp only [MailId.key, Prod.mk.injEq] at hkey
    exact Bool.false_ne_true (hid.symm.trans (recorded_iff.mpr ⟨r, hr, hkey⟩))

theorem Wf.post (H : box.Wf) :
    (box.post faults sender id recipient body size now).2.Wf := by
  have hposted := post_posted box faults sender id recipient body size now
  revert hposted
  generalize box.post faults sender id recipient body size now = result
  obtain ⟨outcome, box'⟩ := result
  intro hposted
  cases hposted with
  | failed | duplicate => exact H
  | half h =>
    simp only [halfDone, Bool.and_eq_true, Bool.not_eq_true'] at h
    exact H.half h.1.2
  | stored _ hquota hid _ hmail =>
    exact H.snoc (m := ⟨sender, id, recipient, now, body, size, false⟩) hquota hid hmail

theorem Wf.ack {ids : List String} (H : box.Wf) : (box.ack recipient ids).Wf :=
  H.sublist filter_sublist (List.Sublist.refl _) fun _ _ h => h

theorem Wf.markPushed (H : box.Wf) : (box.markPushed sender id).Wf := by
  have hmark : ∀ m : Mail, (if m.sender = sender ∧ m.id = id then m.marked else m).mailId =
      m.mailId ∧ (if m.sender = sender ∧ m.id = id then m.marked else m).size = m.size := by
    intro m
    split <;> exact ⟨rfl, rfl⟩
  constructor
  · exact H.quotas.map hmark _
  · intro m hm
    obtain ⟨m₀, hm₀, rfl⟩ := mem_map.mp hm
    rw [(hmark m₀).1]
    exact H.recorded m₀ hm₀
  · have hkey : ∀ m : Mail, (if m.sender = sender ∧ m.id = id then m.marked else m).key = m.key :=
      fun m => congrArg MailId.key (hmark m).1
    simpa only [Mailbox.markPushed, List.map_map, Function.comp_def, hkey] using H.mailKeys
  · exact H.idKeys

theorem Wf.cleanup (H : box.Wf) : (box.cleanup now).Wf := by
  refine H.sublist filter_sublist filter_sublist fun m hm h => ?_
  exact mem_filter.mpr ⟨h, (mem_filter.mp hm).2⟩

theorem Wf.handle (H : box.Wf) (job : MailboxJob) : (box.handle job).Wf := by
  cases job with
  | post => exact H.post
  | ack => exact H.ack
  | markPushed => exact H.markPushed
  | cleanup => exact H.cleanup

/-- The mails under one primary key. -/
def copies (box : Mailbox) (sender id : String) : Nat :=
  box.mail.countP fun m => m.sender = sender ∧ m.id = id

theorem copies_le_one (H : box.Wf) : box.copies sender id ≤ 1 := by
  have hcount := nodup_iff_count_le_one.mp H.mailKeys (sender, id)
  rw [List.count, countP_map] at hcount
  refine le_trans (le_of_eq ?_) hcount
  refine countP_congr fun m _ => ?_
  simp [Mail.key]

theorem post_of_recorded (h : box.recorded sender id) :
    (box.post faults sender id recipient body size now).2 = box := by
  have hposted := post_posted box faults sender id recipient body size now
  revert hposted
  generalize box.post faults sender id recipient body size now = result
  obtain ⟨outcome, box'⟩ := result
  intro hposted
  cases hposted with
  | failed | duplicate => rfl
  | half hhalf =>
    simp only [halfDone, Bool.and_eq_true, Bool.not_eq_true'] at hhalf
    exact absurd (hhalf.1.2.symm.trans h) Bool.false_ne_true
  | stored _ _ hid => exact absurd (hid.symm.trans h) Bool.false_ne_true

theorem copies_handle (h : box.recorded sender id) (job : MailboxJob) :
    (box.handle job).copies sender id ≤ box.copies sender id := by
  cases job with
  | post faults sender' id' recipient body size now =>
    by_cases hkey : sender' = sender ∧ id' = id
    · obtain ⟨rfl, rfl⟩ := hkey
      rw [handle, post_of_recorded h]
    have hposted := post_posted box faults sender' id' recipient body size now
    rw [handle]
    revert hposted
    generalize box.post faults sender' id' recipient body size now = result
    obtain ⟨outcome, box'⟩ := result
    intro hposted
    cases hposted with
    | failed | duplicate | half => exact le_rfl
    | stored => simp [copies, countP_append, hkey]
  | ack | cleanup => exact (filter_sublist).countP_le
  | markPushed sender' id' =>
    rw [handle, copies, Mailbox.markPushed, countP_map]
    refine le_of_eq (countP_congr fun m _ => ?_)
    simp only [Function.comp_apply]
    split <;> rfl

/-- What the mailbox keeps up: the quotas, an id for every mail, and that an id that is recorded
brings no mail again for as long as it stays. -/
structure Bounded (box : Mailbox) : Prop where
  quotas : box.WithinQuotas
  recorded : ∀ m ∈ box.mail, box.recorded m.sender m.id
  once : ∀ sender id, box.copies sender id ≤ 1
  repost : ∀ sender id, box.recorded sender id → ∀ faults recipient body size now,
    (box.post faults sender id recipient body size now).2 = box
  never : ∀ sender id, box.recorded sender id → ∀ jobs box',
    Run step (fun box job => (box.handle job).recorded sender id) box jobs box' →
      box'.copies sender id ≤ box.copies sender id

/-- In every run of the jobs of the mailbox. -/
theorem run_bounded {jobs : List MailboxJob} (h : FreeRun step {} jobs box) : box.Bounded := by
  have hwf : box.Wf := by
    refine h.invariant (I := Wf) (fun {s job s'} _ hs hstep => ?_) .empty
    rw [← some.inj hstep]
    exact hs.handle job
  constructor
  · exact hwf.quotas
  · exact fun m hm => recorded_iff.mpr ⟨m.mailId, hwf.recorded m hm, rfl, rfl⟩
  · exact fun sender id => copies_le_one hwf
  · exact fun sender id hid faults recipient body size now => post_of_recorded hid
  · intro sender id hid jobs box' hrun
    refine hrun.related (I := fun s => s.recorded sender id)
      (R := fun s s' => s'.copies sender id ≤ s.copies sender id) (fun _ => le_rfl)
      (fun h h' => h'.trans h) (fun {s job s'} hok _ hstep => ?_) (fun {s job s'} _ hs hstep => ?_)
      hid
    · rw [← some.inj hstep]
      exact hok
    · rw [← some.inj hstep]
      exact copies_handle hs job

/-- One mail is posted, acknowledged and posted again. -/
theorem run_bounded_acked : ∃ jobs box, FreeRun step {} jobs box ∧ box.mail = [] ∧
    box.recorded "a" "m1" ∧ box.Bounded := by
  have hrun : FreeRun step {} [.post {} "a" "m1" "b" .null 4 1, .ack "b" ["m1"],
      .post {} "a" "m1" "b" .null 4 2] ⟨[], [⟨"a", "m1", "b", 1⟩]⟩ :=
    .of_exec (by decide)
  exact ⟨_, _, hrun, rfl, by decide, run_bounded hrun⟩

end Mailbox

end Bluetalk.Relay

/-!
## The relay with its mailbox

`ws.rs` over `hub.rs` and `mailbox.rs`: a `post` is stored, then sent to the devices that are
registered; a connection is registered, then what waits for it is listed and sent. A job of the
mailbox runs alone, everything else in between is the relay at work. `MailNote` is kept for the
statements; nothing the relay does depends on it.
-/

namespace Bluetalk.Relay

/-- What a text frame posts. -/
structure MailPost where
  id : String
  toPeer : String
  body : Json

/-- The `post` of a text frame that `handle_post` passes on to the mailbox. -/
def postOf (peerId : String) (granted : Bool) (text : Option Json) : Option MailPost :=
  text.bind fun v =>
    if granted ∧ (v.field? "t").bind Json.asStr = some "post" then
      ((v.field? "id").bind Json.asStr).bind fun id =>
        if !validMailId id then none
        else
          (((v.field? "to").bind Json.asStr).bind parsePeerId).bind fun toPeer =>
            if toPeer = peerId then none else (v.field? "body").map fun body => ⟨id, toPeer, body⟩
    else none

/-- The ids of an `ack`. -/
def ackOf (granted : Bool) (text : Option Json) : List String :=
  match text with
  | none => []
  | some v =>
    if granted ∧ (v.field? "t").bind Json.asStr = some "ack" then
      (((v.field? "ids").bind Json.asArray).map fun arr => arr.filterMap Json.asStr).getD []
    else []

def Mail.row (m : Mail) : MailRow := ⟨m.id, m.sender, m.ts, m.body⟩

/-- What is remembered of a stored mail. -/
structure MailNote where
  /-- how much had been put into every control queue when it was stored -/
  since : Nat → Nat := fun _ => 0
  /-- the connections that were registered when it was fanned out -/
  targets : List Nat := []

structure MailServer where
  server : Server := {}
  box : Mailbox := {}
  /-- The connections that are registered and have yet to list what waits for them. -/
  listing : List Nat := []
  notes : String × String → MailNote := fun _ => {}

inductive MailAction
  /-- A connection has proved who it is. -/
  | connect (spec : RegisterSpec)
  /-- `ready` went into its queue, and it lists what waits. -/
  | list (gen : Nat)
  /-- A text frame; which statements of a `post` fail, the length of the body as text and the clock
  of the mailbox are arguments. -/
  | text (gen : Nat) (granted : Bool) (text : Option Json) (faults : PostFaults) (size : Nat)
      (stamp : Int) (sentFor : Option Nat)
  /-- After a mail went into a queue. No send depends on it, so it may be any mail at any time. -/
  | markPushed (sender id : String)
  | cleanup (now : Int)
  /-- What else the relay does. -/
  | relay (act : Action)

namespace Server

/-- The connection whose loop takes the action. -/
def reader? : Action → Option Nat
  | .text gen .. | .binary gen _ | .ping gen | .leave gen _ => some gen
  | _ => none

end Server

namespace MailServer

variable (s : MailServer)

/-- What the mailbox says to a frame, and what becomes of it. -/
def jobs (gen : Nat) (granted : Bool) (text : Option Json) (faults : PostFaults) (size : Nat)
    (stamp : Int) : PostOutcome × Mailbox :=
  let peerId := (s.server.lines gen).peerId
  match postOf peerId granted text with
  | some p => s.box.post faults peerId p.id p.toPeer p.body size stamp
  | none => (.failed "invalid", s.box.ack peerId (ackOf granted text))

/-- A mail is stored. -/
def noteStored (gen : Nat) (granted : Bool) (text : Option Json) (outcome : PostOutcome) :
    String × String → MailNote :=
  let peerId := (s.server.lines gen).peerId
  match postOf peerId granted text, outcome with
  | some p, .stored =>
    Function.update s.notes (peerId, p.id) { since := fun g => (s.server.lines g).sent.length }
  | _, _ => s.notes

/-- The mail for which the action looks up the connections that it is sent to. -/
def fannedOut (act : Action) : Option Mail :=
  match s.server.performed act with
  | some (.call (.deliver _ toPeer row)) =>
    (s.box.find? row.sender row.id).filter fun m => m.recipient = toPeer ∧ m.body = row.body
  | _ => none

def noteTargets (act : Action) : String × String → MailNote :=
  match s.fannedOut act with
  | some m => Function.update s.notes m.key { s.notes m.key with
      targets := (s.notes m.key).targets ++ s.server.hub.controlTargets m.recipient }
  | none => s.notes

/-- `handle_auth` after `ready`: what waits is sent. -/
def listed (gen : Nat) : Server :=
  let peerId := (s.server.lines gen).peerId
  s.server.spawn gen ((s.box.list peerId).map fun m => .put (.send peerId) gen m.row.item)

def step : MailAction → Option MailServer
  | .connect spec => some { s with
      server := s.server.connect spec []
      listing := (s.server.hub.register spec).1.generation :: s.listing }
  | .list gen =>
    if gen ∈ s.listing ∧ s.server.reads gen then some { s with
      server := s.listed gen
      listing := s.listing.filter (· ≠ gen) }
    else none
  | .text gen granted text faults size stamp sentFor =>
    if gen ∈ s.listing then none
    else
      let r := s.jobs gen granted text faults size stamp
      (s.server.step (.text gen granted text r.1 sentFor)).map fun server => { s with
        server
        box := r.2
        notes := s.noteStored gen granted text r.1 }
  | .markPushed sender id => some { s with box := s.box.markPushed sender id }
  | .cleanup now => some { s with box := s.box.cleanup now }
  | .relay (.connect ..) | .relay (.text ..) => none
  | .relay act =>
    if (Server.reader? act).any (· ∈ s.listing) then none
    else (s.server.step act).map fun server => { s with server, notes := s.noteTargets act }

end MailServer

end Bluetalk.Relay

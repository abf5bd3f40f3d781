import Bluetalk.Js.Number
import Bluetalk.Theory.Keyed
import Bluetalk.Theory.Splice

/-!
# The text operations of shared documents

`applyTextOp`, `normalizeTextOp` and `transformTextOp` of `plugin-realtime.mjs`, and the host's part
of `SharedDocument`. A text is a list of code units.
-/

open List Option

namespace Bluetalk.Realtime

inductive OpType
  | insert
  | delete
  | replace
  | set
  /-- whatever else is truthy -/
  | unknown
  | falsy
  deriving DecidableEq

/-- A JSON value, or none -/
inductive DocState (γ β : Type)
  | text (s : List γ)
  | other (value : β)

/-- What is read of an operation, if that is an object: `pos` and `len` as `Number(op.pos)`, `text`
and `valueText` as `String(op.text ?? '')` -/
structure DocOp (γ β : Type) where
  type : OpType
  pos : Number := .nan
  len : Number := .nan
  text : List γ := []
  valueText : List γ := []
  value : DocState γ β := .text []

/-- What `normalizeTextOp` makes of an operation; a number that is `none` is `Infinity`. -/
inductive TextOp (γ : Type)
  | insert (pos : Option Nat) (text : List γ)
  | delete (pos len : Option Nat)

/-- What is logged -/
inductive Entry (γ : Type)
  | op (op : TextOp γ)
  | replace

/-- `Math.max(0, x || 0)`, and `none` for `Infinity` -/
def extent : Number → Option Rat
  | .finite q => some (max 0 q)
  | .infinity => none
  | .nan | .negInfinity => some 0

def whole (x : Number) : Option Nat := (extent x).map fun q => q.floor.toNat

/-- The sum of two numbers that are not negative -/
def addDouble (x y : Rat) : Rat := roundDouble (x + y).num.toNat / (x + y).den

/-- `Math.max(0, Math.min(Number(op.pos) || 0, text.length))` -/
def posIn (length : Nat) (pos : Number) : Rat :=
  match extent pos with
  | some q => min q length
  | none => length

/-- Where `text.slice(pos + len)` begins -/
def restFrom (length : Nat) (pos len : Number) : Nat :=
  match extent len with
  | some len => min (addDouble (posIn length pos) len).floor.toNat length
  | none => length

section

variable {γ β : Type}

def applyTextOp (text : List γ) (op : DocOp γ β) : List γ :=
  let pos := (posIn text.length op.pos).floor.toNat
  match op.type with
  | .insert => text.take pos ++ op.text ++ text.drop pos
  | .delete => text.take pos ++ text.drop (restFrom text.length op.pos op.len)
  | .replace => op.valueText
  | _ => text

def normalizeTextOp (op : DocOp γ β) : Option (TextOp γ) :=
  match op.type with
  | .insert => some (.insert (whole op.pos) op.text)
  | .delete => some (.delete (whole op.pos) (whole op.len))
  | _ => none

def entryOf (op : DocOp γ β) : Entry γ := (normalizeTextOp op).elim .replace .op

def number : Option Nat → Number
  | some n => .finite n
  | none => .infinity

def TextOp.docOp : TextOp γ → DocOp γ β
  | .insert pos text => { type := .insert, pos := number pos, text }
  | .delete pos len => { type := .delete, pos := number pos, len := number len }

def plus : Option Nat → Option Nat → Option Nat
  | some m, some n => if roundDouble (m + n) < 2 ^ 1024 then some (roundDouble (m + n)) else none
  | _, _ => none

/-- The difference of two `Infinity` is `NaN`, which counts as 0. -/
def minus : Option Nat → Option Nat → Option Nat
  | some m, some n => some (roundDouble (m - n))
  | none, some _ => none
  | _, none => some 0

def atMost : Option Nat → Option Nat → Bool
  | _, none => true
  | none, some _ => false
  | some m, some n => m ≤ n

/-- An operation as it is after another, `none` if the two are in conflict -/
def transformTextOp : TextOp γ → Entry γ → Option (TextOp γ)
  | _, .replace => none
  | .insert pos text, .op (.insert at' shift) =>
    some (.insert (if atMost at' pos then plus pos (some shift.length) else pos) text)
  | .delete pos len, .op (.insert at' shift) =>
    if atMost at' pos then some (.delete (plus pos (some shift.length)) len)
    else if atMost (plus pos len) at' then some (.delete pos len)
    else none
  | .insert pos text, .op (.delete at' gone) =>
    if atMost pos at' then some (.insert pos text)
    else if atMost (plus at' gone) pos then some (.insert (minus pos gone) text)
    else none
  | .delete pos len, .op (.delete at' gone) =>
    if atMost (plus pos len) at' then some (.delete pos len)
    else if atMost (plus at' gone) pos then some (.delete (minus pos gone) len)
    else none

end

@[irreducible] def opLogLimit : Nat := 128
def seenOpsPerPeer : Nat := 16

/-- A document of the host. No operation of the log is later than its revision. -/
structure Document (γ β : Type) where
  state : DocState γ β
  revision : Nat := 0
  opLog : List (Nat × Entry γ) := []
  seenOps : String → List (String × Bool) := fun _ => []
  opLog_le : ∀ entry ∈ opLog, entry.1 ≤ revision := by decide

namespace Document

variable {γ β : Type} (d : Document γ β)

def logged (entry : Entry γ) : List (Nat × Entry γ) :=
  let log := d.opLog ++ [(d.revision + 1, entry)]
  log.drop (log.length - opLogLimit)

theorem logged_suffix {entry : Entry γ} :
    d.logged entry <:+ d.opLog ++ [(d.revision + 1, entry)] :=
  drop_suffix ..

/-- A new state, with the next revision and its entry in the log -/
def commit (state : DocState γ β) (entry : Entry γ) : Document γ β where
  state := state
  revision := d.revision + 1
  opLog := d.logged entry
  seenOps := d.seenOps
  opLog_le x hx := by
    rcases mem_append.mp (d.logged_suffix.subset hx) with hx | hx
    · exact (d.opLog_le x hx).trans (Nat.le_succ _)
    · rw [mem_singleton.mp hx]

def rememberOp (sender : String) (opId : Option String) (applied : Bool) : Document γ β :=
  match opId with
  | none => d
  | some opId =>
    let seen := d.seenOps sender
    let seen := if (List.lookup opId seen).isNone && seenOpsPerPeer ≤ seen.length then seen.tail else seen
    { d with seenOps := Function.update d.seenOps sender (put Prod.fst (opId, applied) seen) }

/-- An operation that is based on an earlier revision; a revision that is none is no whole number. -/
def rebaseOp (op : DocOp γ β) (baseRevision : Option Int) : Option (TextOp γ) :=
  match baseRevision with
  | none => none
  | some base =>
    if d.revision < base then none
    else
      let pending := d.opLog.filter fun entry => base < entry.1
      if (pending.length : Int) ≠ d.revision - base then none
      else
        (normalizeTextOp op).bind fun op => pending.foldlM (fun op e => transformTextOp op e.2) op

/-- The effect of an operation that is based on this revision, `none` if there is none -/
def perform (op : DocOp γ β) : Option (Document γ β) :=
  match d.state with
  | .text s =>
    if op.type = .falsy then none else some (d.commit (.text (applyTextOp s op)) (entryOf op))
  | .other _ => if op.type = .set then some (d.commit op.value (entryOf op)) else none

def effective (op : Option (DocOp γ β)) (baseRevision : Option Int) : Option (DocOp γ β) :=
  if baseRevision = some (d.revision : Int) then op
  else
    match d.state with
    | .text _ => (op.bind fun op => d.rebaseOp op baseRevision).map TextOp.docOp
    | .other _ => none

def applyOpAsHost (op : Option (DocOp γ β)) (baseRevision : Option Int)
    (opId replacesOpId : Option String) (sender : String) : Bool × Document γ β :=
  let seen := d.seenOps sender
  match opId.bind fun id => List.lookup id seen with
  | some applied => (applied, d)
  | none =>
    match replacesOpId.bind fun id => List.lookup id seen with
    | some true => (false, d.rememberOp sender opId false)
    | known =>
      let d := if known.isNone then d.rememberOp sender replacesOpId false else d
      match (d.effective op baseRevision).bind d.perform with
      | some d' => (true, d'.rememberOp sender opId true)
      | none => (false, d.rememberOp sender opId false)

/-- The type of an operation is one that changes such a state. -/
def Requests (op : DocOp γ β) : Prop :=
  match d.state with
  | .text _ => op.type = .insert ∨ op.type = .delete ∨ op.type = .replace
  | .other _ => op.type = .set

/-- What a call is to do: an operation that it takes now is one that changes the document, and what
is logged of it does the same to the text; otherwise nothing happens. -/
def Faithful (op : Option (DocOp γ β)) (opId : Option String) (sender : String)
    (r : Bool × Document γ β) : Prop :=
  if r.1 = true ∧ (opId.bind fun id => List.lookup id (d.seenOps sender)) = none then
    ∃ o entry, op = some o ∧ d.Requests o ∧ r.2.revision = d.revision + 1 ∧
      r.2.opLog = d.logged entry ∧
      ∀ t, entry = .op t → ∃ s, d.state = .text s ∧
        r.2.state = .text (applyTextOp s (t.docOp : DocOp γ β))
  else r.2.state = d.state ∧ r.2.revision = d.revision ∧ r.2.opLog = d.opLog

/-- An operation on this very revision of a text, which no earlier one answers -/
def Direct (op : Option (DocOp γ β)) (baseRevision : Option Int) (opId replacesOpId : Option String)
    (sender : String) (o : DocOp γ β) (s : List γ) : Prop :=
  op = some o ∧ o.type ≠ .falsy ∧ d.state = .text s ∧ baseRevision = some (d.revision : Int) ∧
    (opId.bind fun id => List.lookup id (d.seenOps sender)) = none ∧
    (replacesOpId.bind fun id => List.lookup id (d.seenOps sender)) ≠ some true

end Document

/-- The log can tell what an operation does to a text: it is of a known type, and where it deletes,
its numbers without their fractions give the same place. -/
def Traceable {γ β : Type} (length : Nat) (op : DocOp γ β) : Prop :=
  op.type = .insert ∨ op.type = .replace ∨ op.type = .delete ∧
    restFrom length op.pos op.len = restFrom length (number (whole op.pos)) (number (whole op.len))

section

variable {γ β : Type} {op : DocOp γ β} {t : TextOp γ} {s : List γ} {length : Nat}

theorem extent_nonneg {x : Number} {q : Rat} (h : extent x = some q) : 0 ≤ q := by
  cases x <;> cases h
  · exact le_rfl
  · exact le_rfl
  · exact le_max_left ..

theorem le_floor_toNat {q : Rat} (hq : 0 ≤ q) {n : Nat} : n ≤ q.floor.toNat ↔ (n : Rat) ≤ q := by
  have hfloor : 0 ≤ q.floor := Rat.le_floor_iff.mpr (by exact_mod_cast hq)
  rw [Int.le_toNat hfloor, Rat.le_floor_iff, Int.cast_natCast]

theorem floor_natCast (n : Nat) : (n : Rat).floor.toNat = n :=
  congrArg Int.toNat (Rat.floor_intCast n)

theorem extent_number (n : Option Nat) : extent (number n) = n.map fun m : Nat => (m : Rat) := by
  cases n with
  | none => rfl
  | some n => exact congrArg some (max_eq_right (Nat.cast_nonneg n))

theorem whole_number (n : Option Nat) : whole (number n) = n := by
  rw [whole, extent_number, Option.map_map]
  cases n with
  | none => rfl
  | some n => exact congrArg some (floor_natCast n)

theorem normalizeTextOp_docOp : normalizeTextOp (t.docOp : DocOp γ β) = some t := by
  cases t <;> simp [TextOp.docOp, normalizeTextOp, whole_number]

theorem floor_posIn (length : Nat) (pos : Number) :
    (posIn length (number (whole pos))).floor.toNat = (posIn length pos).floor.toNat := by
  rw [posIn, posIn, extent_number, whole, Option.map_map]
  cases hq : extent pos with
  | none => rfl
  | some q =>
    have hpos := extent_nonneg hq
    refine eq_of_forall_le_iff fun n => ?_
    rw [le_floor_toNat (le_min hpos (Nat.cast_nonneg _)), map_some, Function.comp_apply]
    rw [le_floor_toNat (le_min (Nat.cast_nonneg _) (Nat.cast_nonneg _)), le_min_iff, le_min_iff,
      Nat.cast_le, le_floor_toNat hpos]

theorem entryOf_eq_op : entryOf op = .op t ↔ normalizeTextOp op = some t := by
  rw [entryOf]
  cases normalizeTextOp op <;> simp

theorem restFrom_le {pos len : Number} : restFrom length pos len ≤ length := by
  rw [restFrom]
  split
  · exact min_le_right ..
  · exact le_rfl

/-- An operation does to a text what its entry of the log does exactly if it is traceable. -/
theorem applyTextOp_eq_iff (hop : normalizeTextOp op = some t) :
    applyTextOp s (t.docOp : DocOp γ β) = applyTextOp s op ↔ Traceable s.length op := by
  rw [normalizeTextOp] at hop
  split at hop
  · rename_i htype
    obtain rfl := some.inj hop
    simp [applyTextOp, TextOp.docOp, Traceable, htype, floor_posIn]
  · rename_i htype
    obtain rfl := some.inj hop
    simp only [applyTextOp, TextOp.docOp, Traceable, htype, floor_posIn, append_cancel_left_eq,
      reduceCtorEq, true_and, false_or]
    refine ⟨fun h => ?_, fun h => by rw [h]⟩
    have hlength := congrArg List.length h
    rw [length_drop, length_drop] at hlength
    have hraw := @restFrom_le s.length op.pos op.len
    have hwhole := @restFrom_le s.length (number (whole op.pos)) (number (whole op.len))
    omega
  · cases hop

end

namespace Document

variable {γ β : Type} {d d' : Document γ β} {op : Option (DocOp γ β)} {o : DocOp γ β} {s : List γ}
  {sender : String} {opId replacesOpId : Option String} {baseRevision : Option Int} {b : Bool}

@[simp] theorem state_rememberOp : (d.rememberOp sender opId b).state = d.state := by
  cases opId <;> rfl

@[simp] theorem revision_rememberOp : (d.rememberOp sender opId b).revision = d.revision := by
  cases opId <;> rfl

@[simp] theorem opLog_rememberOp : (d.rememberOp sender opId b).opLog = d.opLog := by
  cases opId <;> rfl

theorem effective_rememberOp :
    (d.rememberOp sender opId b).effective op baseRevision = d.effective op baseRevision := by
  cases opId <;> rfl

theorem opLog_commit {state : DocState γ β} {entry : Entry γ} :
    (d.commit state entry).opLog = d.logged entry := rfl

theorem commit_rememberOp {state : DocState γ β} {entry : Entry γ} :
    (d.rememberOp sender opId b).commit state entry =
      (d.commit state entry).rememberOp sender opId b := by
  cases opId <;> rfl

theorem perform_rememberOp :
    (d.rememberOp sender opId b).perform o = (d.perform o).map (·.rememberOp sender opId b) := by
  rw [perform, perform, state_rememberOp]
  split <;> split <;> simp [commit_rememberOp]

theorem bind_perform_rememberOp : ((d.rememberOp sender opId b).effective op baseRevision).bind
      (d.rememberOp sender opId b).perform =
    ((d.effective op baseRevision).bind d.perform).map (·.rememberOp sender opId b) := by
  rw [effective_rememberOp, map_bind]
  exact congrArg _ (funext fun o => perform_rememberOp)

theorem logged_inj {entry entry' : Entry γ} (h : d.logged entry = d.logged entry') :
    entry = entry' := by
  have hlog : ∀ entry, d.logged entry =
      d.opLog.drop (d.opLog.length + 1 - opLogLimit) ++ [(d.revision + 1, entry)] := by
    intro entry
    rw [logged, drop_append_of_le_length, length_append, length_singleton]
    rw [length_append, length_singleton, opLogLimit]
    omega
  rw [hlog, hlog, append_cancel_left_eq] at h
  cases h
  rfl

theorem type_of_rebaseOp (h : d.rebaseOp o baseRevision = some t) :
    o.type = .insert ∨ o.type = .delete := by
  rw [rebaseOp.eq_def] at h
  split at h
  · cases h
  split at h
  · cases h
  dsimp only at h
  split at h
  · cases h
  obtain ⟨t, ht, -⟩ := bind_eq_some_iff.mp h
  rw [normalizeTextOp] at ht
  split at ht
  · exact .inl ‹_›
  · exact .inr ‹_›
  · cases ht

/-- What an operation does when it is taken -/
theorem performed_iff (h : (d.effective op baseRevision).bind d.perform = some d') :
    (∃ o entry, op = some o ∧ d.Requests o ∧ d'.revision = d.revision + 1 ∧
        d'.opLog = d.logged entry ∧ ∀ t, entry = .op t → ∃ s, d.state = .text s ∧
          d'.state = .text (applyTextOp s (t.docOp : DocOp γ β))) ↔
      ∀ o s, op = some o → o.type ≠ .falsy → d.state = .text s →
        baseRevision = some (d.revision : Int) → Traceable s.length o := by
  obtain ⟨o, ho, hperform⟩ := bind_eq_some_iff.mp h
  rw [effective] at ho
  rw [perform] at hperform
  split at ho
  · -- an operation on this revision
    rename_i hbase
    subst ho
    cases hstate : d.state with
    | text s =>
      simp only [hstate, ite_none_left_eq_some, Option.some.injEq] at hperform
      obtain ⟨htype, rfl⟩ := hperform
      constructor
      · rintro ⟨_, entry, ho, hrequests, -, hlog, htrace⟩ o' s' ho' - hs' -
        cases ho
        cases ho'
        cases hs'
        rw [Requests, hstate] at hrequests
        obtain rfl := logged_inj hlog
        cases hop : normalizeTextOp o with
        | some t =>
          obtain ⟨_, hs, hsame⟩ := htrace t (entryOf_eq_op.mpr hop)
          cases hs
          exact (applyTextOp_eq_iff hop).mp (DocState.text.inj hsame).symm
        | none =>
          rcases hrequests with htype | htype | htype
          · exact .inl htype
          · rw [normalizeTextOp, htype] at hop
            cases hop
          · exact .inr (.inl htype)
      · intro htrace
        have htrace := htrace o s rfl htype rfl hbase
        refine ⟨o, entryOf o, rfl, ?_, rfl, opLog_commit, fun t ht => ⟨s, rfl, ?_⟩⟩
        · rw [Requests, hstate]
          rcases htrace with htype | htype | htype
          · exact .inl htype
          · exact .inr (.inr htype)
          · exact .inr (.inl htype.1)
        · exact congrArg DocState.text ((applyTextOp_eq_iff (entryOf_eq_op.mp ht)).mpr htrace).symm
    | other v =>
      simp only [hstate, ite_none_right_eq_some, Option.some.injEq] at hperform
      obtain ⟨htype, rfl⟩ := hperform
      refine iff_of_true ⟨o, entryOf o, rfl, ?_, rfl, opLog_commit, fun t ht => ?_⟩
        fun _ _ _ _ h => by cases h
      · rw [Requests, hstate]
        exact htype
      · rw [entryOf, normalizeTextOp, htype] at ht
        cases ht
  · -- an operation that was based on an earlier one
    rename_i hbase
    cases hstate : d.state with
    | text s =>
      simp only [hstate, map_eq_some_iff] at ho
      obtain ⟨t, hrebase, rfl⟩ := ho
      obtain ⟨o, rfl, hrebase⟩ := bind_eq_some_iff.mp hrebase
      simp only [hstate, ite_none_left_eq_some, Option.some.injEq] at hperform
      obtain ⟨-, rfl⟩ := hperform
      refine iff_of_true ⟨o, .op t, rfl, ?_, rfl, ?_, fun t' ht => ⟨s, rfl, ?_⟩⟩
        fun _ _ _ _ _ h => absurd h hbase
      · rw [Requests, hstate]
        exact (type_of_rebaseOp hrebase).imp_right .inl
      · rw [opLog_commit, entryOf, normalizeTextOp_docOp, elim_some]
      · cases ht
        rfl
    | other v =>
      rw [hstate] at ho
      cases ho

/-- The log is true to the document, and the answers are honest, exactly if no operation on this
very revision of a text is of another type or one whose numbers have fractions that tell. -/
theorem faithful_iff_traceable :
    d.Faithful op opId sender (d.applyOpAsHost op baseRevision opId replacesOpId sender) ↔
      ∀ o s, d.Direct op baseRevision opId replacesOpId sender o s → Traceable s.length o := by
  rw [applyOpAsHost, Faithful]
  cases hseen : opId.bind fun id => List.lookup id (d.seenOps sender) with
  | some applied =>
    refine iff_of_true ?_ fun o s h => ?_
    · rw [if_neg fun h => by cases h.2]
      exact ⟨rfl, rfl, rfl⟩
    · rw [Direct, hseen] at h
      cases h.2.2.2.2.1
  | none =>
    dsimp only
    split
    · rename_i hreplaced
      refine iff_of_true ?_ fun o s h => absurd hreplaced h.2.2.2.2.2
      exact ⟨state_rememberOp, revision_rememberOp, opLog_rememberOp⟩
    · rename_i hreplaced
      have hdrop : ∃ id, (if (replacesOpId.bind fun id => List.lookup id (d.seenOps sender)).isNone
          then d.rememberOp sender replacesOpId false else d) = d.rememberOp sender id false := by
        split
        · exact ⟨_, rfl⟩
        · exact ⟨none, rfl⟩
      obtain ⟨id, hid⟩ := hdrop
      rw [hid, bind_perform_rememberOp]
      cases hp : (d.effective op baseRevision).bind d.perform with
      | none =>
        refine iff_of_true ?_ fun o s h => ?_
        · simp
        · obtain ⟨rfl, htype, hstate, rfl, -⟩ := h
          rw [effective, if_pos rfl, bind_some, perform, hstate] at hp
          simp [htype] at hp
      | some d' =>
        rw [map_some, if_pos ⟨rfl, rfl⟩]
        simp only [state_rememberOp, revision_rememberOp, opLog_rememberOp]
        refine (performed_iff hp).trans ⟨fun h o s hdirect => ?_, fun h o s ho htype hs hbase => ?_⟩
        · exact h o s hdirect.1 hdirect.2.1 hdirect.2.2.1 hdirect.2.2.2.1
        · exact h o s ⟨ho, htype, hs, hbase, hseen, hreplaced⟩

/-- An operation of an unknown type is confirmed, and nothing is done. -/
theorem unknown_confirmed : ¬ ∀ (d : Document Nat Unit) (op : Option (DocOp Nat Unit))
    (baseRevision : Option Int) (opId replacesOpId : Option String) (sender : String),
    d.Faithful op opId sender (d.applyOpAsHost op baseRevision opId replacesOpId sender) := by
  intro h
  have hfaithful := h { state := .text [104, 105] } (some { type := .unknown }) (some 0) (some "x") none "p"
  obtain ⟨o, -, ho, hrequests, -⟩ := hfaithful
  cases ho
  rcases hrequests with h | h | h <;> cases h

end Document
end Bluetalk.Realtime

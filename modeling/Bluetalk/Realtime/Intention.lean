import Bluetalk.Realtime.TextOps

/-!
# What a rebased operation does

The characters of a text are told apart, and `unit` is the code unit that each stands for. An edit
that was made on an earlier text is moved over those in the log.
-/

open List Option

namespace Bluetalk.Realtime

open Theory (Splice)
open Theory.Splice (AllInRange applyAll Intends)

inductive Edit (α : Type)
  | insert (pos : Nat) (text : List α)
  | delete (pos len : Nat)

namespace Edit

variable {α γ β : Type}

def splice : Edit α → Splice α
  | insert pos text => ⟨pos, 0, text⟩
  | delete pos len => ⟨pos, len, []⟩

def op (unit : α → γ) : Edit α → TextOp γ
  | insert pos text => .insert (some pos) (text.map unit)
  | delete pos len => .delete (some pos) (some len)

def moved (pos : Nat) : Edit α → Edit α
  | insert _ text => insert pos text
  | delete _ len => delete pos len

/-- What comes of an edit of one text when it is made on another: a deletion takes just what it was
aimed at, an insertion goes between what was before it and what was behind it. -/
def Done (t current result : List α) : Edit α → Prop
  | insert pos text => ∃ l r, current = l ++ r ∧ result = l ++ text ++ r ∧
      (∀ c ∈ t.take pos, c ∉ r) ∧ ∀ c ∈ t.drop pos, c ∉ l
  | delete pos len => (t.drop pos).take len ⊆ current ∧ result.Sublist current ∧
      ∀ c ∈ current, c ∈ result ↔ c ∉ (t.drop pos).take len

variable {unit : α → γ} {e e' a : Edit α} {edits : List (Edit α)} {t current : List α} {n p l : Nat}

/-- The texts of the language are no longer. -/
def IsString (t : List α) : Prop := t.length < 2 ^ 53

theorem roundDouble_eq (h : n < 2 ^ 53) : roundDouble n = n := if_pos h

theorem plus_eq (h : p + l < 2 ^ 53) : plus (some p) (some l) = some (p + l) := by
  have hfinite : 2 ^ 53 ≤ 2 ^ 1024 := pow_le_pow_right₀ one_le_two (by decide)
  rw [plus, roundDouble_eq h, if_pos (h.trans_le hfinite)]

theorem minus_eq (h : p < 2 ^ 53) : minus (some p) (some l) = some (p - l) := by
  rw [minus, roundDouble_eq (by omega)]

theorem posIn_eq (h : p ≤ n) : posIn n (number (some p)) = p := by
  have hcast : (p : Rat) ≤ n := Nat.cast_le.mpr h
  rw [posIn, extent_number]
  exact min_eq_left hcast

theorem restFrom_eq (h : p + l ≤ n) (hn : n < 2 ^ 53) :
    restFrom n (number (some p)) (number (some l)) = p + l := by
  have hsum : ((p : Rat) + (l : Rat)) = ((p + l : Nat) : Rat) := (Nat.cast_add p l).symm
  rw [restFrom, extent_number, posIn_eq (by omega), map_some]
  dsimp only
  rw [addDouble, hsum, Rat.num_natCast, Rat.den_natCast, Int.toNat_natCast,
    roundDouble_eq (by omega), Nat.cast_one, div_one, floor_natCast]
  omega

/-- `applyTextOp` is the edit, for a text it is in the range of. -/
theorem applyTextOp_op (he : e.splice.InRange t) (ht : IsString t) :
    applyTextOp (t.map unit) ((e.op unit).docOp : DocOp γ β) = (e.splice.apply t).map unit := by
  rw [IsString] at ht
  have hlength : (t.map unit).length = t.length := length_map ..
  cases e with
  | insert p text =>
    have hp : (posIn (t.map unit).length (number (some p))).floor.toNat = p := by
      rw [posIn_eq (hlength ▸ he), floor_natCast]
    dsimp only [applyTextOp, op, TextOp.docOp, splice, Splice.apply]
    rw [hp, map_append, map_append, map_take, map_drop, Nat.add_zero]
  | delete p l =>
    have he : p + l ≤ (t.map unit).length := hlength ▸ he
    have hp : (posIn (t.map unit).length (number (some p))).floor.toNat = p := by
      rw [posIn_eq (by omega), floor_natCast]
    dsimp only [applyTextOp, op, TextOp.docOp, splice, Splice.apply]
    rw [hp, restFrom_eq he (by omega), map_append, append_nil, map_take, map_drop]

theorem splice_moved : (e.moved n).splice = { e.splice with pos := n } := by
  cases e <;> rfl

theorem moved_moved : (e.moved n).moved p = e.moved p := by
  cases e <;> rfl

/-- `transformTextOp` moves an edit over another. -/
theorem transformTextOp_op (he : e.splice.InRange t) (ha : a.splice.InRange t) (ht : IsString t)
    (ht' : IsString (a.splice.apply t)) :
    transformTextOp (e.op unit) (.op (a.op unit)) =
      (e.splice.moveOver a.splice).map fun s => (e.moved s.pos).op unit := by
  have hlength := Splice.length_apply ha
  rw [IsString] at ht ht'
  rw [Splice.InRange] at he ha
  cases a with
  | insert q shift =>
    have hplus : ∀ p ≤ t.length, plus (some p) (some (shift.map unit).length) =
        some (p + shift.length) := by
      intro p hp
      rw [length_map]
      refine plus_eq ?_
      simp only [splice] at hlength ht'
      omega
    cases e with
    | insert p text =>
      simp only [transformTextOp, op, splice, Splice.moveOver, atMost, hplus p he]
      by_cases hq : q ≤ p
      · simp [hq, moved]
      · simp [hq, moved, show p ≤ q by omega]
    | delete p len =>
      simp only [splice] at he
      have hend : plus (some p) (some len) = some (p + len) := plus_eq (by omega)
      simp only [transformTextOp, op, splice, Splice.moveOver, atMost, hplus p (by omega), hend]
      by_cases hq : q ≤ p
      · simp [hq, moved]
      · by_cases hp : p + len ≤ q <;> simp [hq, hp, moved]
  | delete q gone =>
    have hend : plus (some q) (some gone) = some (q + gone) := plus_eq (by
      simp only [splice] at ha
      omega)
    cases e with
    | insert p text =>
      simp only [splice] at he
      have hminus : minus (some p) (some gone) = some (p - gone) := minus_eq (by omega)
      simp only [transformTextOp, op, splice, Splice.moveOver, atMost, hend, hminus]
      by_cases hp : p ≤ q
      · by_cases hq : q + gone ≤ p
        · simp [hp, hq, moved, show p - gone = p by omega]
        · simp [hp, hq, moved]
      · by_cases hq : q + gone ≤ p <;> simp [hp, hq, moved]
    | delete p len =>
      simp only [splice] at he
      have hlast : plus (some p) (some len) = some (p + len) := plus_eq (by omega)
      have hminus : minus (some p) (some gone) = some (p - gone) := minus_eq (by omega)
      simp only [transformTextOp, op, splice, Splice.moveOver, atMost, hend, hlast, hminus]
      by_cases hp : p + len ≤ q
      · by_cases hq : q + gone ≤ p
        · simp [hp, hq, moved, show p - gone = p by omega]
        · simp [hp, hq, moved]
      · by_cases hq : q + gone ≤ p <;> simp [hp, hq, moved]

/-- An edit is moved over the log as over the edits that it has. -/
theorem foldlM_transformTextOp (he : e.splice.InRange t)
    (hrange : AllInRange IsString t (edits.map splice))
    (hdistinct : (t ++ (edits.map splice).flatMap (·.text)).Nodup) :
    (edits.map fun a => Entry.op (a.op unit)).foldlM transformTextOp (e.op unit) =
      (e.splice.moveOverAll (edits.map splice)).map fun s => (e.moved s.pos).op unit := by
  induction edits generalizing e t with
  | nil => cases e <;> rfl
  | cons a edits ih =>
    obtain ⟨ha, ht, hrest⟩ := hrange
    have ht' : IsString (a.splice.apply t) := by
      cases edits with
      | nil => exact hrest
      | cons => exact hrest.2.1
    rw [map_cons, map_cons, foldlM_cons, transformTextOp_op he ha ht ht',
      Splice.moveOverAll, foldlM_cons]
    cases hmove : e.splice.moveOver a.splice with
    | none => rfl
    | some s =>
      have hfirst := Splice.intends_moveOver he ha
        (hdistinct.sublist ((sublist_append_left ..).append_left _)) hmove
      have hs : (e.moved s.pos).splice = s := by
        rw [splice_moved]
        dsimp only
        rw [← hfirst.len, ← hfirst.text]
      rw [map_some, bind_eq_bind, bind_some, bind_eq_bind,
        bind_some, ih (by rw [hs]; exact hfirst.inRange) hrest
          (Splice.nodup_apply hdistinct), hs]
      simp only [moved_moved]
      rfl

/-- What a splice that intends the same does to a text -/
theorem done_of_intends {s : Splice α} (h : Intends e.splice t s current)
    (hdistinct : current.Nodup) : e.Done t current (s.apply current) := by
  have hcurrent := Splice.eq_take_target_drop s current
  cases e with
  | insert p text =>
    have hlen : s.len = 0 := h.len
    have htext : s.text = text := h.text
    refine ⟨current.take s.pos, current.drop s.pos, (take_append_drop ..).symm, ?_, ?_, ?_⟩
    · rw [Splice.apply, htext, hlen, Nat.add_zero]
    · simpa [hlen, splice] using h.before
    · simpa [splice] using h.after
  | delete p len =>
    have htext : s.text = [] := h.text
    have htarget : (current.drop s.pos).take s.len = (t.drop p).take len := h.target
    rw [Done, ← htarget, Splice.apply, htext, append_nil]
    refine ⟨fun c hc => mem_of_mem_drop (mem_of_mem_take hc), ?_, fun c hc => ?_⟩
    · conv_rhs => rw [hcurrent]
      exact (sublist_append_right ..).append_left _
    · rw [hcurrent, nodup_append, nodup_append] at hdistinct
      rw [hcurrent, mem_append, mem_append] at hc
      rw [mem_append]
      constructor
      · rintro (hfront | hback) htaken
        · exact hdistinct.2.2 c hfront c (mem_append_left _ htaken) rfl
        · exact hdistinct.2.1.2.2 c htaken c hback rfl
      · intro hnot
        rcases hc with hc | hc | hc
        · exact .inl hc
        · exact absurd hc hnot
        · exact .inr hc

end Edit

namespace Document

open Edit (IsString)

variable {α γ β : Type} {unit : α → γ} {d d' : Document γ β} {e : Edit α} {edits : List (Edit α)}
  {t : List α} {base : Int} {op : TextOp γ}

theorem perform_op (hstate : d.state = .text (t.map unit)) (he : e.splice.InRange t)
    (ht : IsString t) : d.perform (e.op unit).docOp =
      some (d.commit (.text ((e.splice.apply t).map unit)) (.op (e.op unit))) := by
  rw [perform, hstate, entryOf, normalizeTextOp_docOp]
  dsimp only
  rw [Edit.applyTextOp_op he ht, if_neg (by cases e <;> exact fun h => (by cases h))]
  rfl

/-- The later entries of the log are the last of the edits. -/
theorem run_edits (hstate : d.state = .text (t.map unit))
    (hrange : AllInRange IsString t (edits.map Edit.splice)) (hbase : base ≤ d.revision)
    (hrun : (edits.map fun a => (a.op unit).docOp).foldlM perform d = some d') :
    d'.state = .text ((applyAll t (edits.map Edit.splice)).map unit) ∧
      d'.revision = d.revision + edits.length ∧
      ∃ log : List (Nat × Entry γ), log.map Prod.snd = edits.map (fun a => .op (a.op unit)) ∧
        d'.opLog.filter (base < ·.1) <:+ d.opLog.filter (base < ·.1) ++ log := by
  induction edits generalizing d t with
  | nil =>
    obtain rfl := some.inj hrun
    exact ⟨hstate, rfl, [], rfl, (append_nil _).symm ▸ suffix_rfl⟩
  | cons a edits ih =>
    obtain ⟨ha, ht, hrest⟩ := hrange
    rw [map_cons, foldlM_cons, perform_op hstate ha ht] at hrun
    obtain ⟨hend, hrevision, log, hlog, hsuffix⟩ := ih rfl hrest (hbase.trans (by
      dsimp only [commit]
      omega)) hrun
    refine ⟨hend, ?_, (d.revision + 1, .op (a.op unit)) :: log, by rw [map_cons, hlog]; rfl, ?_⟩
    · rw [hrevision, length_cons]
      dsimp only [commit]
      omega
    · have hfilter := (@logged_suffix γ β d (.op (a.op unit))).filter fun x => base < x.1
      have hlater : base < ((d.revision + 1 : Nat) : Int) := by omega
      rw [filter_append, filter_singleton, decide_eq_true hlater, cond_true] at hfilter
      obtain ⟨front, hfront⟩ := hfilter
      refine hsuffix.trans ⟨front, ?_⟩
      rw [opLog_commit, ← append_assoc, hfront, append_assoc]
      rfl

/-- An edit that is rebased over the log still does what it was made for. -/
theorem rebaseOp_done (hstate : d.state = .text (t.map unit))
    (hrange : AllInRange IsString t (edits.map Edit.splice)) (he : e.splice.InRange t)
    (hdistinct : (t ++ (edits.map Edit.splice).flatMap (·.text)).Nodup)
    (hrun : (edits.map fun a => (a.op unit).docOp).foldlM perform d = some d')
    (h : d'.rebaseOp (e.op unit).docOp (some d.revision) = some op) :
    ∃ current result : List α, d'.state = .text (current.map unit) ∧
      applyTextOp (current.map unit) (op.docOp : DocOp γ β) = result.map unit ∧
      e.Done t current result := by
  obtain ⟨hend, hrevision, log, hlog, hsuffix⟩ := run_edits hstate hrange le_rfl hrun
  have hold : d.opLog.filter (fun x => (d.revision : Int) < x.1) = [] := by
    rw [filter_eq_nil_iff]
    intro x hx
    have := d.opLog_le x hx
    simpa using this
  rw [hold, nil_append] at hsuffix
  rw [rebaseOp.eq_def] at h
  simp only [normalizeTextOp_docOp] at h
  split at h
  · cases h
  split at h
  · cases h
  rename_i hlength
  have hcount := congrArg List.length hlog
  rw [length_map, length_map] at hcount
  rw [hsuffix.eq_of_length (by omega), bind_some, ← foldlM_map, hlog,
    Edit.foldlM_transformTextOp he hrange hdistinct] at h
  obtain ⟨s, hs, rfl⟩ := map_eq_some_iff.mp h
  have hintends := Splice.intends_moveOverAll he hrange hdistinct hs
  have hsplice : (e.moved s.pos).splice = s := by
    rw [Edit.splice_moved]
    dsimp only
    rw [← hintends.len, ← hintends.text]
  refine ⟨_, s.apply _, hend, ?_, Edit.done_of_intends hintends (Splice.nodup_applyAll hdistinct)⟩
  rw [Edit.applyTextOp_op (by rw [hsplice]; exact hintends.inRange) hrange.last, hsplice]

/-- A deletion is moved over an insertion and another deletion. -/
theorem rebaseOp_done_sample : ∃ current result : List Nat,
    (Edit.delete 2 1).Done [1, 2, 3, 4] current result := by
  let d : Document Nat Unit := { state := .text [1, 2, 3, 4] }
  have hrun : ([Edit.insert 1 [9], .delete 4 1].map fun a => (a.op id).docOp).foldlM perform d =
      some _ := rfl
  obtain ⟨current, result, -, -, hdone⟩ := @rebaseOp_done Nat Nat Unit id d _ (.delete 2 1) _
    [1, 2, 3, 4] _ rfl
    (by simp [AllInRange, Splice.InRange, IsString, Edit.splice, Splice.apply])
    (by simp [Splice.InRange, Edit.splice])
    (by decide) hrun (some_get (by decide +kernel)).symm
  exact ⟨current, result, hdone⟩

end Document
end Bluetalk.Realtime

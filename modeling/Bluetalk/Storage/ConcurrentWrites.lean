import Bluetalk.Storage.NestedWrites

/-!
# Nested writes at the same time

Several calls write below one key, no path leading to another's. On the desktop the effect of each
stands in the row in the end. In the browser it does where nobody has written since a call read the
row that it replaces: `Plain` is what each turn has to keep, and `Inv` what it keeps.
-/

open Option

namespace Bluetalk.Storage
open Reader

namespace NestedWrite

variable {top : String} {w : NestedWrite top} {root : Option Json} {next : Json}

/-- The effect of the write stands in the row. -/
def Stands (w : NestedWrite top) (root : Option Json) : Prop := below root w.path = w.value

instance : Decidable (w.Stands root) := inferInstanceAs (Decidable (_ = _))

theorem next_stands (h : w.next root = some next) :
    w.Stands (some next) ∧ ∀ q, Unrelated w.path q → below (some next) q = below root q := by
  obtain ⟨key, path, value, hnested, hsplit, hother⟩ := w
  cases value with
  | some value =>
    have hputs : Puts (below (JsValue.ofOption root).own)
        (Idb.setNested (.ofOption root) path value).atPath path value := Idb.setNested_puts
    rw [JsValue.own_ofOption] at hputs
    cases h
    exact ⟨hputs.at_path, hputs.outside⟩
  | none =>
    have hdeletes := Idb.deleteNested_deletes (.ofOption root) hnested
    rw [JsValue.own_ofOption, show Idb.deleteNested (.ofOption root) path = some next from h]
      at hdeletes
    exact ⟨hdeletes.at_path, hdeletes.outside⟩

theorem stands_of_next (h : w.next root = none) : w.Stands root := by
  obtain ⟨key, path, value, hnested, hsplit, hother⟩ := w
  cases value with
  | some value => cases h
  | none =>
    have hdeletes := Idb.deleteNested_deletes (.ofOption root) hnested
    rw [JsValue.own_ofOption, show Idb.deleteNested (.ofOption root) path = none from h] at hdeletes
    exact hdeletes

end NestedWrite

/-- The call has written, or found nothing to write. -/
def WritePhase.wrote : WritePhase → Bool
  | .copying _ | .done (.ok _) => true
  | _ => false

namespace IdbStore

variable {s s' : IdbStore} {top name : String} {p : List String} {next x : Json}

/-- The store knows an account. -/
def Known (s : IdbStore) : Prop :=
  s.accountDbName ≠ none ∨ s.row sessionDb "activePeerId" ≠ none

/-- What is read at a path stays, and an account that is known. -/
structure Shift (s s' : IdbStore) (top : String) (p : List String) : Prop where
  top_eq : below (s'.top top) p = below (s.top top) p
  opened : s.accountDbName ≠ none → s'.accountDbName ≠ none ∧
    (s.row s.inUse top ≠ none → s'.row s.inUse top ≠ none)
  known : s.Known → s'.Known ∧ s'.inUse = s.inUse

/-- So does what a call reads that has a database already, unless it is what all read. -/
def ReadsOn (s s' : IdbStore) (top : String) (p : List String) : Prop :=
  ∀ name, below (s'.rowFrom name top) p = below (s.rowFrom name top) p ∨
    below (s'.rowFrom name top) p = below (s.top top) p

/-! ### What a transaction does to it -/

theorem Shift.of_rows (hrow : ∀ name, s'.row name top = s.row name top)
    (hname : s.accountDbName ≠ none → s'.accountDbName ≠ none) (hknown : s.Known → s'.Known)
    (huse : s'.inUse = s.inUse) : Shift s s' top p ∧ ReadsOn s s' top p := by
  have hfrom : ∀ name, s'.rowFrom name top = s.rowFrom name top := by
    intro name
    rw [rowFrom, rowFrom, hrow, hrow]
  refine ⟨⟨?_, fun h => ⟨hname h, fun hne => ?_⟩, fun h => ⟨hknown h, huse⟩⟩, fun name => .inl ?_⟩
  · rw [IdbStore.top_eq, IdbStore.top_eq, huse, hfrom]
  · rw [hrow]
    exact hne
  · rw [hfrom]

theorem inUse_of_name (h : s.accountDbName = some name) : s.inUse = name := by
  rw [inUse, accountDb, h]

theorem inUse_congr (hname : s'.accountDbName = s.accountDbName)
    (hrow : s'.row sessionDb "activePeerId" = s.row sessionDb "activePeerId") :
    s'.inUse = s.inUse := by
  rw [inUse, inUse, accountDb, accountDb, hname, hrow]
  split
  · rfl
  · split
    · rfl
    · split <;> rfl

theorem accountDb_cases (s : IdbStore) :
    (s.accountDb.1 = s ∧ (s.accountDbName = none → s.inUse = sessionDb)) ∨
    ∃ peerId, s.accountDb.1 = { s with accountPeerId := peerId, accountDbName := some s.inUse } := by
  rw [inUse, accountDb]
  split
  · next name hname => exact .inl ⟨rfl, fun hnone =>
      absurd (hname.symm.trans hnone) (some_ne_none name)⟩
  split
  · exact .inl ⟨rfl, fun _ => rfl⟩
  · split
    · exact .inr ⟨_, rfl⟩
    · exact .inl ⟨rfl, fun _ => rfl⟩

theorem inUse_accountDb (s : IdbStore) : s.accountDb.1.inUse = s.inUse := by
  rcases s.accountDb_cases with ⟨h, -⟩ | ⟨peerId, h⟩
  · rw [h]
  · rw [h]
    exact inUse_of_name rfl

theorem inUse_of_accountDbName_none (h : s.accountDb.1.accountDbName = none) :
    s.inUse = sessionDb := by
  rcases s.accountDb_cases with ⟨hs, hsession⟩ | ⟨peerId, hs⟩
  · rw [hs] at h
    exact hsession h
  · rw [hs] at h
    cases h

theorem shift_accountDb (s : IdbStore) :
    Shift s s.accountDb.1 top p ∧ ReadsOn s s.accountDb.1 top p := by
  apply Shift.of_rows (fun _ => row_accountDb) ?_ ?_ s.inUse_accountDb
  · intro hname
    rcases s.accountDb_cases with ⟨hs, -⟩ | ⟨peerId, hs⟩
    · rw [hs]
      exact hname
    · rw [hs]
      exact nofun
  intro hknown
  rcases s.accountDb_cases with ⟨hs, -⟩ | ⟨peerId, hs⟩
  · rw [hs]
    exact hknown
  · rw [hs]
    exact .inl nofun

theorem shift_peerId (s : IdbStore) : Shift s { s with accountPeerId := x } top p ∧
    ReadsOn s { s with accountPeerId := x } top p :=
  Shift.of_rows (fun _ => rfl) (fun h => h) (fun h => h) (inUse_congr rfl rfl)

theorem shift_open (huse : s.inUse = name) : Shift s { s with accountDbName := some name } top p ∧
    ReadsOn s { s with accountDbName := some name } top p :=
  Shift.of_rows (fun _ => rfl) (fun _ => nofun) (fun _ => .inl nofun)
    ((inUse_of_name rfl).trans huse.symm)

theorem shift_remember {peerId : String} (htop : top ≠ "activePeerId") (hpeer : peerId ≠ "")
    (hname : s.accountDbName = none) (hrow : s.row sessionDb "activePeerId" = none)
    (hfree : "bluetalk-web-" ++ peerId = sessionDb ∨ s.row ("bluetalk-web-" ++ peerId) top = none) :
    let s' := s.putRow sessionDb "activePeerId" (.str peerId)
    (s'.Known ∧ s'.inUse = "bluetalk-web-" ++ peerId) ∧ Shift s s' top p ∧ ReadsOn s s' top p := by
  intro s'
  have hactive : s'.row sessionDb "activePeerId" = some (.str peerId) :=
    row_putRow.trans (if_pos ⟨rfl, rfl⟩)
  have hrows : ∀ name, s'.row name top = s.row name top := fun name =>
    row_putRow.trans (if_neg fun hand => htop hand.2)
  have hfrom : ∀ name, s'.rowFrom name top = s.rowFrom name top := by
    intro name
    rw [rowFrom, rowFrom, hrows, hrows]
  have huse : s.inUse = sessionDb := by
    rw [inUse, accountDb, hname, hrow]
  have huse' : s'.inUse = "bluetalk-web-" ++ peerId := by
    have htruthy : (Json.str peerId).truthy = true := decide_eq_true hpeer
    rw [inUse, accountDb, show s'.accountDbName = none from hname, hactive]
    dsimp only
    rw [if_pos htruthy]
    rfl
  have htop_eq : s'.top top = s.top top := by
    rw [top_eq, top_eq, huse, huse', hfrom]
    rcases hfree with heq | hnone
    · rw [heq]
    rw [rowFrom, rowFrom_session, hnone, none_or]
    split
    · rfl
    · next heq => rw [← not_not.mp heq, hnone]
  have hunknown : ¬ s.Known := fun hknown => hknown.elim (fun h => h hname) fun h => h hrow
  refine ⟨⟨.inr (by rw [hactive]; exact some_ne_none _), huse'⟩, ⟨by rw [htop_eq], fun h => absurd hname h,
    fun hknown => absurd hknown hunknown⟩, fun name => .inl (by rw [hfrom])⟩

theorem row_putRow_same {key : String} : (s.putRow name top next).row key top =
    if key = name then some next else s.row key top :=
  row_putRow.trans (if_congr (and_iff_left rfl) rfl rfl)

theorem rowFrom_putRow (s : IdbStore) (name top key : String) (next : Json) :
    (s.putRow name top next).rowFrom key top = s.rowFrom key top ∨
      (s.putRow name top next).rowFrom key top = some next := by
  rw [rowFrom, rowFrom, row_putRow_same, row_putRow_same]
  by_cases hkey : key = name
  · rw [if_pos hkey]
    exact .inr rfl
  rw [if_neg hkey]
  cases s.row key top with
  | some x => exact .inl rfl
  | none =>
    by_cases hsession : sessionDb = name
    · rw [if_pos hsession]
      exact .inr (if_pos fun heq => hkey (heq.trans hsession))
    · rw [if_neg hsession]
      exact .inl rfl

theorem shift_put (name : String) (htop : top ≠ "activePeerId")
    (hsame : below (some next) p = below (s.top top) p) :
    Shift s (s.putRow name top next) top p ∧ ReadsOn s (s.putRow name top next) top p := by
  have hactive : (s.putRow name top next).row sessionDb "activePeerId" =
      s.row sessionDb "activePeerId" := row_putRow.trans (if_neg fun hand => htop hand.2.symm)
  have huse : (s.putRow name top next).inUse = s.inUse := inUse_congr rfl hactive
  refine ⟨⟨?_, fun h => ⟨h, fun hrow => ?_⟩, fun h => ⟨?_, huse⟩⟩, fun key => ?_⟩
  · rw [top_eq, huse]
    rcases rowFrom_putRow s name top s.inUse next with h | h
    · rw [h, ← top_eq]
    · rw [h, hsame]
  · rw [row_putRow]
    split
    · exact nofun
    · exact hrow
  · exact h.imp (fun h => h) fun h => by rwa [hactive]
  · rcases rowFrom_putRow s name top key next with h | h
    · exact .inl (by rw [h])
    · exact .inr (by rw [h, hsame])

theorem top_putRow (htop : top ≠ "activePeerId") : (s.putRow s.inUse top next).top top = some next := by
  have hactive : (s.putRow s.inUse top next).row sessionDb "activePeerId" =
      s.row sessionDb "activePeerId" := row_putRow.trans (if_neg fun hand => htop hand.2.symm)
  have huse : (s.putRow s.inUse top next).inUse = s.inUse := inUse_congr rfl hactive
  rw [top_eq, huse, rowFrom, row_putRow, if_pos ⟨rfl, rfl⟩]
  rfl

theorem shift_copy (next : Json) (htop : top ≠ "activePeerId") (hname : s.accountDbName ≠ none)
    (huse : s.inUse ≠ sessionDb) (hrow : s.row s.inUse top ≠ none) :
    let s' := (s.putRow sessionDb top next).putRow sessionDb "activePeerId" x
    s'.top top = s.top top ∧ Shift s s' top p ∧
      (below (some next) p = below (s.top top) p → ReadsOn s s' top p) := by
  intro s'
  have hrow' : ∀ name, s'.row name top = (s.putRow sessionDb top next).row name top := fun name =>
    row_putRow.trans (if_neg fun hand => htop hand.2)
  have hfrom : ∀ name, s'.rowFrom name top = (s.putRow sessionDb top next).rowFrom name top := by
    intro name
    rw [rowFrom, rowFrom, hrow', hrow']
  have huse' : s'.inUse = s.inUse := by
    obtain ⟨name, hname⟩ := ne_none_iff_exists'.mp hname
    rw [inUse_of_name hname]
    exact inUse_of_name hname
  have hkeeps : s'.row s.inUse top = s.row s.inUse top := by
    rw [hrow', row_putRow_same, if_neg huse]
  have htop_eq : s'.top top = s.top top := by
    obtain ⟨y, hy⟩ := ne_none_iff_exists'.mp hrow
    rw [top_eq, top_eq, huse', rowFrom, rowFrom, hkeeps, hy]
    rfl
  refine ⟨htop_eq, ⟨by rw [htop_eq], fun _ => ⟨hname, fun _ => by rwa [hkeeps]⟩, fun _ =>
    ⟨.inl hname, huse'⟩⟩, fun hsame key => ?_⟩
  rw [hfrom]
  rcases rowFrom_putRow s sessionDb top key next with h | h
  · exact .inl (by rw [h])
  · exact .inr (by rw [h, hsame])

end IdbStore

/-! ### What a call relies on -/

variable {ι : Type} {top : String}

namespace NestedWrite

variable {w : NestedWrite top} {s s' : IdbStore} {phase : WritePhase} {root : Option Json} {next : Json}

/-- What a call relies on where it stands: that what it has still to read is there to be read, and
that its effect stands once it is at its end. -/
def Relies (w : NestedWrite top) (s : IdbStore) : WritePhase → Prop
  | .reading db => below (s.rowFrom db top) w.path = below (s.top top) w.path
  | .fallback => below (s.rowFrom sessionDb top) w.path = below (s.top top) w.path
  | .remembering peerId _ => peerId ≠ ""
  | .opening peerId _ => s.Known ∧ s.inUse = "bluetalk-web-" ++ peerId
  | .putting db _ => s.accountDbName = none → db = sessionDb
  | .copying _ => (s.accountDbName ≠ none ∧ s.inUse ≠ sessionDb ∧ s.row s.inUse top ≠ none) ∧
      w.Stands (s.top top)
  | .done (.ok _) => w.Stands (s.top top)
  | _ => True

/-- A turn that keeps the call apart from the others: an account is opened where none was known and
its database has no row of the key, and a row is put in the database in use that is the one to write
now. -/
def Plain (w : NestedWrite top) (s : IdbStore) : WritePhase → Prop
  | .remembering peerId _ => s.accountDbName = none ∧ s.row sessionDb "activePeerId" = none ∧
      ("bluetalk-web-" ++ peerId = sessionDb ∨ s.row ("bluetalk-web-" ++ peerId) top = none)
  | .putting db next => s.inUse = db ∧ w.next (s.top top) = some next
  | _ => True

instance : (phase : WritePhase) → Decidable (w.Plain s phase)
  | .remembering _ _ => inferInstanceAs (Decidable (_ ∧ _ ∧ _))
  | .putting _ _ => inferInstanceAs (Decidable (_ ∧ _))
  | .ready | .reading _ | .fallback | .writing _ | .opening _ _ | .remembered _ | .copying _
  | .done _ => .isTrue trivial

theorem Stands.of_top (h : w.Stands (s.top top)) (hs : s.Shift s' top w.path) :
    w.Stands (s'.top top) := hs.top_eq.trans h

theorem Relies.shift (h : w.Relies s phase) (hs : s.Shift s' top w.path)
    (hreads : phase.wrote = false → s.ReadsOn s' top w.path) : w.Relies s' phase := by
  cases phase with
  | reading db =>
    have hread := hreads rfl db
    rcases hread with heq | heq
    · exact (heq.trans h).trans hs.top_eq.symm
    · exact heq.trans hs.top_eq.symm
  | fallback =>
    rcases hreads rfl sessionDb with heq | heq
    · exact (heq.trans h).trans hs.top_eq.symm
    · exact heq.trans hs.top_eq.symm
  | opening peerId next =>
    obtain ⟨hknown, huse⟩ := hs.known h.1
    exact ⟨hknown, huse.trans h.2⟩
  | putting db next =>
    intro hname
    apply h
    by_contra hne
    exact (hs.opened hne).1 hname
  | copying next =>
    obtain ⟨⟨hname, huse, hrow⟩, hstands⟩ := h
    obtain ⟨hname', hrow'⟩ := hs.opened hname
    have huse' := (hs.known (.inl hname)).2
    refine ⟨⟨hname', by rwa [huse'], ?_⟩, hstands.of_top hs⟩
    rw [huse']
    exact hrow' hrow
  | done answer =>
    cases answer with
    | error e => exact trivial
    | ok b => exact Stands.of_top h hs
  | _ => exact h

theorem relies_afterRead (h : below root w.path = below (s.top top) w.path) :
    w.Relies s (w.afterRead root) := by
  rw [afterRead]
  cases hnext : w.next root with
  | none => exact h.symm.trans (stands_of_next hnext)
  | some next => exact trivial

/-! ### The turns of a call -/

/-- A turn that writes no row of the key. -/
structure Quiet (w : NestedWrite top) (s : IdbStore) (phase : WritePhase) : Prop where
  shift : ∀ p, s.Shift (w.advance s phase).1 top p ∧ s.ReadsOn (w.advance s phase).1 top p
  relies : w.Relies (w.advance s phase).1 (w.advance s phase).2
  not_copying : ∀ next, (w.advance s phase).2 ≠ .copying next
  not_wrote : (w.advance s phase).2.wrote = false → phase.wrote = false

theorem shift_refl (p : List String) : s.Shift s top p ∧ s.ReadsOn s top p :=
  IdbStore.Shift.of_rows (fun _ => rfl) (fun h => h) (fun h => h) rfl

theorem quiet_afterRead (hadvance : w.advance s phase = (s, w.afterRead root))
    (hphase : phase.wrote = false) (h : below root w.path = below (s.top top) w.path) :
    w.Quiet s phase := by
  refine ⟨fun p => ?_, ?_, fun next => ?_, fun _ => hphase⟩
  · rw [hadvance]
    exact shift_refl p
  · rw [hadvance]
    exact relies_afterRead h
  · rw [hadvance, afterRead]
    split <;> exact WritePhase.noConfusion

theorem quiet_advance (htop : top ≠ "activePeerId") (h : w.Relies s phase) (hplain : w.Plain s phase)
    (hput : ∀ db next, phase ≠ .putting db next) (hcopy : ∀ next, phase ≠ .copying next) :
    w.Quiet s phase := by
  cases phase with
  | ready =>
    cases hsize : w.checkSize with
    | error e =>
      have hadvance : w.advance s .ready = (s, .done (.error e)) := by rw [advance, hsize]
      exact ⟨fun p => by rw [hadvance]; exact shift_refl p, by rw [hadvance]; exact trivial,
        fun _ => by rw [hadvance]; exact WritePhase.noConfusion, fun _ => rfl⟩
    | ok _ =>
      have hadvance : w.advance s .ready = (s.accountDb.1, .reading s.inUse) := by
        rw [advance, hsize]
        rfl
      refine ⟨fun p => by rw [hadvance]; exact s.shift_accountDb, ?_,
        fun _ => by rw [hadvance]; exact WritePhase.noConfusion, fun _ => rfl⟩
      rw [hadvance, Relies, IdbStore.top_eq, IdbStore.inUse_accountDb]
  | reading db =>
    have hread : below (s.rowFrom db top) w.path = below (s.top top) w.path := h
    rw [IdbStore.rowFrom] at hread
    cases hrow : s.row db top with
    | some value =>
      rw [hrow] at hread
      have hadvance : w.advance s (.reading db) = (s, w.afterRead (some value)) := by
        rw [advance, hrow]
      exact quiet_afterRead hadvance rfl hread
    | none =>
      rw [hrow, none_or] at hread
      by_cases hdb : db = sessionDb
      · rw [if_neg fun hne => hne hdb] at hread
        exact quiet_afterRead (by rw [advance, hrow]; exact if_neg fun hne => hne hdb) rfl hread
      rw [if_pos hdb] at hread
      have hadvance : w.advance s (.reading db) = (s, .fallback) := by
        rw [advance, hrow]
        exact if_pos hdb
      refine ⟨fun p => by rw [hadvance]; exact shift_refl p, ?_,
        fun _ => by rw [hadvance]; exact WritePhase.noConfusion, fun _ => rfl⟩
      rw [hadvance, Relies, IdbStore.rowFrom_session]
      exact hread
  | fallback => exact quiet_afterRead rfl rfl (by rw [← IdbStore.rowFrom_session]; exact h)
  | writing next =>
    by_cases hsame : jsTrim (peerToRemember top s next).textOrEmpty = "" ∨
        Json.str (jsTrim (peerToRemember top s next).textOrEmpty) = s.accountPeerId
    · have hadvance : w.advance s (.writing next) = (s, .remembered next) := if_pos hsame
      exact ⟨fun p => by rw [hadvance]; exact shift_refl p, by rw [hadvance]; exact trivial,
        fun _ => by rw [hadvance]; exact WritePhase.noConfusion, fun _ => rfl⟩
    have hadvance : w.advance s (.writing next) = (_, .remembering _ next) := if_neg hsame
    exact ⟨fun p => by rw [hadvance]; exact s.shift_peerId,
      by rw [hadvance]; exact fun hempty => hsame (.inl hempty),
      fun _ => by rw [hadvance]; exact WritePhase.noConfusion, fun _ => rfl⟩
  | remembering peerId next =>
    obtain ⟨hname, hrow, hfree⟩ := hplain
    have hremember := fun p => IdbStore.shift_remember (p := p) htop h hname hrow hfree
    exact ⟨fun p => (hremember p).2, (hremember []).1, fun _ => WritePhase.noConfusion, fun _ => rfl⟩
  | opening peerId next =>
    exact ⟨fun p => IdbStore.shift_open h.2, trivial, fun _ => WritePhase.noConfusion, fun _ => rfl⟩
  | remembered next =>
    exact ⟨fun p => s.shift_accountDb, IdbStore.inUse_of_accountDbName_none,
      fun _ => WritePhase.noConfusion,
      fun _ => rfl⟩
  | putting db next => exact absurd rfl (hput db next)
  | copying next => exact absurd rfl (hcopy next)
  | done answer => exact ⟨shift_refl, h, fun _ => WritePhase.noConfusion, fun hwrote => hwrote⟩

end NestedWrite

/-! ### Calls in turns -/

namespace Callers

variable (calls : ι → NestedWrite top)

/-- Every turn keeps the calls apart. -/
def PlainRun [DecidableEq ι] (c : Callers ι) : List ι → Prop
  | [] => True
  | i :: turns => (calls i).Plain c.store (c.phase i) ∧ (c.step calls i).PlainRun turns

instance decidablePlainRun [DecidableEq ι] :
    (c : Callers ι) → (turns : List ι) → Decidable (c.PlainRun calls turns)
  | _, [] => .isTrue trivial
  | c, i :: turns =>
    have := decidablePlainRun (c.step calls i) turns
    inferInstanceAs (Decidable ((calls i).Plain c.store (c.phase i) ∧ _))

/-- Each call can rely on the store, and what is still to be copied has what the others read. -/
structure Inv (c : Callers ι) : Prop where
  relies : ∀ i, (calls i).Relies c.store (c.phase i)
  copies : ∀ i next, c.phase i = .copying next → ∀ j, (c.phase j).wrote = false →
    below (some next) (calls j).path = below (c.store.top top) (calls j).path

variable {calls}

theorem inv_start {s : IdbStore} : Inv calls { store := s } where
  relies _ := trivial
  copies _ _ := nofun

variable {c : Callers ι} {i : ι}

theorem Inv.stands (h : c.Inv calls) {b : Bool} (hdone : c.phase i = .done (.ok b)) :
    (calls i).Stands (c.store.top top) := by
  have hrelies := h.relies i
  rw [hdone] at hrelies
  exact hrelies

variable [DecidableEq ι] {turns : List ι} {db : String} {next : Json}

theorem phase_step_self : (c.step calls i).phase i = ((calls i).advance c.store (c.phase i)).2 :=
  Function.update_self ..

theorem phase_step_of_ne {j : ι} (h : j ≠ i) : (c.step calls i).phase j = c.phase j :=
  Function.update_of_ne h ..

theorem Inv.step_quiet (h : c.Inv calls) (hquiet : (calls i).Quiet c.store (c.phase i)) :
    (c.step calls i).Inv calls where
  relies j := by
    by_cases hj : j = i
    · subst hj
      rw [phase_step_self]
      exact hquiet.relies
    · rw [phase_step_of_ne hj]
      exact (h.relies j).shift (hquiet.shift _).1 fun _ => (hquiet.shift _).2
  copies j next hj l hl := by
    have hcopy : c.phase j = .copying next := by
      by_cases hji : j = i
      · subst hji
        rw [phase_step_self] at hj
        exact absurd hj (hquiet.not_copying next)
      · rwa [phase_step_of_ne hji] at hj
    have hbefore : (c.phase l).wrote = false := by
      by_cases hli : l = i
      · subst hli
        rw [phase_step_self] at hl
        exact hquiet.not_wrote hl
      · rwa [phase_step_of_ne hli] at hl
    exact (h.copies j next hcopy l hbefore).trans (hquiet.shift _).1.top_eq.symm

theorem Inv.step_put (h : c.Inv calls) (htop : top ≠ "activePeerId")
    (hapart : ∀ i j, i ≠ j → Unrelated (calls i).path (calls j).path)
    (hphase : c.phase i = .putting db next) (hplain : (calls i).Plain c.store (.putting db next)) :
    (c.step calls i).Inv calls := by
  obtain ⟨rfl, hnext⟩ := hplain
  obtain ⟨hstands, hothers⟩ := NestedWrite.next_stands hnext
  have hstore : (c.step calls i).store = c.store.putRow c.store.inUse top next := by
    rw [Callers.step, hphase]
    rfl
  have hread : (c.step calls i).store.top top = some next := by
    rw [hstore]
    exact IdbStore.top_putRow htop
  have hsame : ∀ j, j ≠ i → below (some next) (calls j).path =
      below (c.store.top top) (calls j).path := fun j hj => hothers _ (hapart i j (Ne.symm hj))
  have hself : (c.step calls i).phase i = if top = "cloudAccount" ∧
      (next.get "peerId").truthy ∧ c.store.inUse ≠ sessionDb then .copying next
      else .done (.ok true) := by
    rw [phase_step_self, hphase]
    rfl
  constructor
  · intro j
    by_cases hj : j = i
    · subst hj
      rw [hself]
      split
      · next hcopy =>
        have hname : c.store.accountDbName ≠ none := by
          have hrelies := h.relies j
          rw [hphase] at hrelies
          exact fun hnone => hcopy.2.2 (hrelies hnone)
        have hactive : (c.step calls j).store.row sessionDb "activePeerId" =
            c.store.row sessionDb "activePeerId" := by
          rw [hstore]
          exact IdbStore.row_putRow.trans (if_neg fun hand => htop hand.2.symm)
        have huse : (c.step calls j).store.inUse = c.store.inUse :=
          IdbStore.inUse_congr (by rw [hstore]; rfl) hactive
        refine ⟨⟨by rw [hstore]; exact hname, by rw [huse]; exact hcopy.2.2, ?_⟩, ?_⟩
        · rw [huse, hstore, IdbStore.row_putRow_same, if_pos rfl]
          exact nofun
        · rw [hread]
          exact hstands
      · rw [NestedWrite.Relies, hread]
        exact hstands
    · rw [phase_step_of_ne hj, hstore]
      have hshift := IdbStore.shift_put c.store.inUse htop (hsame j hj)
      exact (h.relies j).shift hshift.1 fun _ => hshift.2
  · intro j next' hj l hl
    have hli : l ≠ i := by
      rintro rfl
      rw [hself] at hl
      split at hl <;> cases hl
    rw [phase_step_of_ne hli] at hl
    rw [hread]
    by_cases hji : j = i
    · subst hji
      rw [hself] at hj
      split at hj
      · cases hj
        rfl
      · cases hj
    · rw [phase_step_of_ne hji] at hj
      rw [h.copies j next' hj l hl, hsame l hli]

theorem Inv.step_copy (h : c.Inv calls) (htop : top ≠ "activePeerId")
    (hphase : c.phase i = .copying next) : (c.step calls i).Inv calls := by
  have hrelies := h.relies i
  rw [hphase] at hrelies
  obtain ⟨⟨hname, huse, hrow⟩, hstands⟩ := hrelies
  have hcopy := fun p =>
    IdbStore.shift_copy (p := p) (x := next.get "peerId") next htop hname huse hrow
  have hstep : (calls i).advance c.store (c.phase i) =
      ((c.store.putRow sessionDb top next).putRow sessionDb "activePeerId" (next.get "peerId"),
        .done (.ok true)) := by
    rw [hphase]
    rfl
  have hstore : (c.step calls i).store =
      (c.store.putRow sessionDb top next).putRow sessionDb "activePeerId" (next.get "peerId") :=
    congrArg Prod.fst hstep
  have hself : (c.step calls i).phase i = .done (.ok true) :=
    phase_step_self.trans (congrArg Prod.snd hstep)
  constructor
  · intro j
    rw [hstore]
    by_cases hj : j = i
    · subst hj
      rw [hself]
      exact NestedWrite.Stands.of_top hstands (hcopy _).2.1
    · rw [phase_step_of_ne hj]
      exact (h.relies j).shift (hcopy _).2.1 fun hwrote =>
        (hcopy _).2.2 (h.copies i next hphase j hwrote)
  · intro j next' hj l hl
    have hji : j ≠ i := by
      rintro rfl
      rw [hself] at hj
      cases hj
    have hli : l ≠ i := by
      rintro rfl
      rw [hself] at hl
      cases hl
    rw [phase_step_of_ne hji] at hj
    rw [phase_step_of_ne hli] at hl
    rw [hstore, (hcopy []).1]
    exact h.copies j next' hj l hl

theorem Inv.step (h : c.Inv calls) (htop : top ≠ "activePeerId")
    (hapart : ∀ i j, i ≠ j → Unrelated (calls i).path (calls j).path)
    (hplain : (calls i).Plain c.store (c.phase i)) : (c.step calls i).Inv calls := by
  by_cases hput : ∃ db next, c.phase i = .putting db next
  · obtain ⟨db, next, hphase⟩ := hput
    exact h.step_put htop hapart hphase (hphase ▸ hplain)
  by_cases hcopy : ∃ next, c.phase i = .copying next
  · obtain ⟨next, hphase⟩ := hcopy
    exact h.step_copy htop hphase
  · apply h.step_quiet
    exact NestedWrite.quiet_advance htop (h.relies i) hplain
      (fun db next heq => hput ⟨db, next, heq⟩) fun next heq => hcopy ⟨next, heq⟩

theorem Inv.run (h : c.Inv calls) (htop : top ≠ "activePeerId")
    (hapart : ∀ i j, i ≠ j → Unrelated (calls i).path (calls j).path)
    (hplain : c.PlainRun calls turns) : (c.run calls turns).Inv calls := by
  induction turns generalizing c with
  | nil => exact h
  | cons i turns ih => exact ih (h.step htop hapart hplain.1) hplain.2

end Callers

/-! ### On the desktop -/

namespace NestedWrite

variable {w : NestedWrite top} {t : KvTable} {answer : Json}

theorem loadTop_of_answer (h : (t.apply w.op).2 = .ok answer) :
    t.loadTop top = .ok (t.rows.lookup top) := by
  obtain ⟨key, path, value, hnested, hsplit, hother⟩ := w
  cases hload : t.loadTop top with
  | ok row =>
    rw [KvTable.loadTop] at hload
    split at hload
    · next hrow =>
      cases hload
      rw [hrow]
    next value hrow =>
    split at hload
    · cases hload
    · cases hload
      rw [hrow]
  | error e =>
    cases path with
    | nil => exact absurd rfl hnested
    | cons l path =>
      cases value with
      | some value =>
        have hset : t.set key value = .error e := by
          rw [KvTable.set, hsplit]
          refine (if_neg hother).trans ?_
          rw [hload]
          rfl
        rw [op, KvTable.apply, hset] at h
        cases h
      | none =>
        have hdelete : t.delete key = .error e := by
          rw [KvTable.delete, hsplit]
          refine (if_neg hother).trans ?_
          rw [hload]
          rfl
        rw [op, KvTable.apply, hdelete] at h
        cases h

theorem stands_of_answer (h : (t.apply w.op).2 = .ok answer) :
    w.Stands ((t.apply w.op).1.rows.lookup top) ∧ ∀ q, Unrelated w.path q →
      below ((t.apply w.op).1.rows.lookup top) q = below (t.rows.lookup top) q := by
  have hload := loadTop_of_answer h
  obtain ⟨key, path, value, hnested, hsplit, hother⟩ := w
  cases value with
  | some value =>
    rw [op, KvTable.apply, KvTable.set_eq hsplit hother hload] at h ⊢
    by_cases hlarge : maxStoreValueBytes < jsonBytes (t.next ⟨top, path⟩ value)
    · rw [if_pos hlarge] at h
      cases h
    rw [if_neg hlarge]
    rw [lookup_setField, if_pos rfl]
    have hputs : Puts (below (t.rows.lookup top)) (t.next ⟨top, path⟩ value).atPath path value :=
      t.next_puts (k := ⟨top, path⟩)
    exact ⟨hputs.at_path, hputs.outside⟩
  | none =>
    have hdelete := KvTable.delete_nested hnested hsplit hother hload
    rw [op, KvTable.apply, hdelete] at h ⊢
    cases hrow : t.rows.lookup top with
    | none =>
      rw [hrow]
      exact ⟨rfl, fun _ _ => rfl⟩
    | some root =>
      have hdeletes := Database.deleteNested_deletes root hnested
      rw [hrow] at h
      dsimp only at h ⊢
      cases hnext : Database.deleteNested root path with
      | none =>
        rw [hnext] at hdeletes
        rw [hrow]
        exact ⟨hdeletes, fun _ _ => rfl⟩
      | some next =>
        rw [hnext] at h hdeletes
        dsimp only at h ⊢
        by_cases hfits : jsonBytes next ≤ maxStoreValueBytes
        · rw [KvTable.writeTop_of_fits hfits]
          have hwritten : (setField top next t.rows).lookup top = some next := by
            rw [lookup_setField, if_pos rfl]
          exact ⟨(congrArg (below · path) hwritten).trans hdeletes.at_path, fun q hq =>
            (congrArg (below · q) hwritten).trans (hdeletes.outside q hq)⟩
        · rw [KvTable.writeTop, ensureSizeOf, if_pos (Nat.lt_of_not_le hfits)] at h
          cases h

end NestedWrite

namespace KvTable

variable (calls : ι → NestedWrite top)

/-- The calls one after the other, as the lock lets them in. -/
def runCalls (t : KvTable) (order : List ι) : KvTable :=
  order.foldl (fun t i => (t.apply (calls i).op).1) t

def Answered (t : KvTable) : List ι → Prop
  | [] => True
  | i :: order => (∃ answer, (t.apply (calls i).op).2 = .ok answer) ∧
      (t.apply (calls i).op).1.Answered order

variable {calls} {t : KvTable} {order : List ι} {i : ι}

theorem Answered.stands (h : t.Answered calls order)
    (hapart : ∀ i j, i ≠ j → Unrelated (calls i).path (calls j).path)
    (hi : i ∈ order ∨ (calls i).Stands (t.rows.lookup top)) :
    (calls i).Stands ((t.runCalls calls order).rows.lookup top) := by
  induction order generalizing t with
  | nil => exact hi.resolve_left List.not_mem_nil
  | cons j order ih =>
    obtain ⟨⟨answer, hanswer⟩, hrest⟩ := h
    obtain ⟨hstands, hothers⟩ := NestedWrite.stands_of_answer hanswer
    apply ih hrest
    by_cases hij : i = j
    · subst hij
      exact .inr hstands
    · rcases hi with hmem | hi
      · exact .inl ((List.mem_cons.mp hmem).resolve_left hij)
      · exact .inr ((hothers _ (hapart j i (Ne.symm hij))).trans hi)

end KvTable

namespace Callers

variable [DecidableEq ι]

/-- In plain turns the effects of all calls stand when they are at their ends, as they do on the desktop
in any order. -/
theorem effects_stand_of_plainRun (calls : ι → NestedWrite top) (htop : top ≠ "activePeerId")
    (hapart : ∀ i j, i ≠ j → Unrelated (calls i).path (calls j).path) (s : IdbStore) (turns : List ι)
    (hplain : PlainRun calls { store := s } turns)
    (hdone : ∀ i, ∃ b, (run calls { store := s } turns).phase i = .done (.ok b)) :
    (∀ i, (calls i).Stands ((run calls { store := s } turns).store.top top)) ∧
      ∀ t order, KvTable.Answered calls t order → (∀ i, i ∈ order) →
        ∀ i, (calls i).Stands ((t.runCalls calls order).rows.lookup top) := by
  refine ⟨fun i => ?_, fun t order hanswered hall i => hanswered.stands hapart (.inl (hall i))⟩
  obtain ⟨b, hb⟩ := hdone i
  exact (inv_start.run htop hapart hplain).stands hb

/-- One call sets `a.x`, the other deletes `a.y`. -/
def setAndDelete : Bool → NestedWrite "a"
  | true => ⟨"a.x", ["x"], some (.num 1), by decide, by decide +kernel, by decide⟩
  | false => ⟨"a.y", ["y"], none, by decide, by decide +kernel, by decide⟩

/-- The second call reads the row after the first has written it. -/
theorem effects_stand_of_plainRun_sample :
    let s : IdbStore := IdbStore.putRow {} sessionDb "a" (.obj [("y", .num 2)])
    let turns := [true, false, true, true, true, true, false, false, false, false]
    (∀ i, (setAndDelete i).Stands ((run setAndDelete { store := s } turns).store.top "a")) ∧
      ∀ t order, KvTable.Answered setAndDelete t order → (∀ i, i ∈ order) →
        ∀ i, (setAndDelete i).Stands ((t.runCalls setAndDelete order).rows.lookup "a") :=
  effects_stand_of_plainRun setAndDelete (by decide) (by decide) _ _ (by decide +kernel) fun i =>
    match i with
    | true | false => ⟨true, by decide +kernel⟩

/-- Both calls read the row before either writes it: the one that sets `a.x` brings back the `a.y` that
the other has deleted. -/
theorem effect_lost_reads_first :
    let s : IdbStore := IdbStore.putRow {} sessionDb "a" (.obj [("y", .num 2)])
    let c := run setAndDelete { store := s }
      [true, false, true, false, true, false, true, false, false, true]
    (∀ i j, i ≠ j → Unrelated (setAndDelete i).path (setAndDelete j).path) ∧
      (∀ i, c.phase i = .done (.ok true)) ∧
        ¬ ∀ i, (setAndDelete i).Stands (c.store.top "a") := by
  refine ⟨by decide, ?_, ?_⟩
  · intro i
    cases i <;> decide +kernel
  · decide +kernel

end Callers
end Bluetalk.Storage

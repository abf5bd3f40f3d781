import Mathlib.Data.List.Basic

/-!
# Runs of a system given by a partial step function

A system is a step function `σ → α → Option σ`: `none` says that the action cannot be taken in
the state. `Run step ok s as s'` is a run along the actions `as`, in which every action is
taken in a state that `ok` allows; with `fun _ _ => True` it is every run. An invariant is proved
once per step (`Run.invariant`), a law about two states of a run once per step (`Run.related`).
-/

open List Option

namespace Bluetalk

variable {σ σ' α α' : Type*}

/-- A run of `step` along a list of actions, every action taken where `ok` allows it. -/
inductive Run (step : σ → α → Option σ) (ok : σ → α → Prop) : σ → List α → σ → Prop
  | nil : Run step ok s [] s
  | cons : ok s a → step s a = some s₁ → Run step ok s₁ as s' → Run step ok s (a :: as) s'

/-- A run in which every action that can be taken may be taken. -/
abbrev FreeRun (step : σ → α → Option σ) : σ → List α → σ → Prop := Run step fun _ _ => True

/-- The state that the actions lead to, when all of them can be taken. -/
def exec (step : σ → α → Option σ) : σ → List α → Option σ
  | s, [] => some s
  | s, a :: as => (step s a).bind fun s => exec step s as

/-- Whether every action that is taken along the way is allowed. -/
def allowed (step : σ → α → Option σ) (ok : σ → α → Bool) : σ → List α → Bool
  | _, [] => true
  | s, a :: as => ok s a && (step s a).all fun s => allowed step ok s as

/-- `P` holds in every state on the way along the actions. -/
def Always (step : σ → α → Option σ) (P : σ → Prop) : σ → List α → Prop
  | s, [] => P s
  | s, a :: as => P s ∧ ∀ s₁, step s a = some s₁ → Always step P s₁ as

/-- `T` holds of every step on the way along the actions. -/
def EveryStep (step : σ → α → Option σ) (T : σ → α → σ → Prop) : σ → List α → Prop
  | _, [] => True
  | s, a :: as => ∀ s₁, step s a = some s₁ → T s a s₁ ∧ EveryStep step T s₁ as

namespace Run

variable {step : σ → α → Option σ} {ok ok' : σ → α → Prop} {s s₁ s' : σ} {a : α} {as bs : List α}
  {I : σ → Prop} {T : σ → α → σ → Prop}

theorem mono (hok : ∀ s a, ok s a → ok' s a) (h : Run step ok s as s') :
    Run step ok' s as s' := by
  induction h with
  | nil => exact .nil
  | cons hs ha _ ih => exact .cons (hok _ _ hs) ha ih

theorem free (h : Run step ok s as s') : FreeRun step s as s' := h.mono fun _ _ _ => trivial

/-- Actions that are allowed everywhere. -/
theorem of_exec_of_forall (hok : ∀ a ∈ as, ∀ s, ok s a) (h : exec step s as = some s') :
    Run step ok s as s' := by
  induction as generalizing s with
  | nil => cases h; exact .nil
  | cons a as ih =>
    obtain ⟨s₁, ha, h⟩ := bind_eq_some_iff.mp h
    rw [forall_mem_cons] at hok
    exact .cons (hok.1 s) ha (ih hok.2 h)

theorem of_exec (h : exec step s as = some s') : FreeRun step s as s' :=
  of_exec_of_forall (fun _ _ _ => trivial) h

/-- A run whose actions are checked one by one. -/
theorem of_allowed {ok : σ → α → Bool} (hok : allowed step ok s as = true)
    (h : exec step s as = some s') : Run step (fun s a => ok s a = true) s as s' := by
  induction as generalizing s with
  | nil => cases h; exact .nil
  | cons a as ih =>
    obtain ⟨s₁, ha, h⟩ := bind_eq_some_iff.mp h
    simp only [allowed, ha, all_some, Bool.and_eq_true] at hok
    exact .cons hok.1 ha (ih hok.2 h)

theorem single (hok : ok s a) (h : step s a = some s') : Run step ok s [a] s' := .cons hok h .nil

theorem append (h : Run step ok s as s₁) (h' : Run step ok s₁ bs s') :
    Run step ok s (as ++ bs) s' := by
  induction h with
  | nil => exact h'
  | cons hs ha _ ih => exact .cons hs ha (ih h')

/-- The invariant rule: what every allowed step preserves holds at the end of every run. -/
theorem invariant (hstep : ∀ {s a s'}, ok s a → I s → step s a = some s' → I s')
    (h : Run step ok s as s') (hs : I s) : I s' := by
  induction h with
  | nil => exact hs
  | cons hok ha _ ih => exact ih (hstep hok hs ha)

/-- The rule for two states of a run: a preorder that every step respects, under an invariant,
relates the two ends. -/
theorem related {R : σ → σ → Prop} (hrefl : ∀ s, R s s)
    (htrans : ∀ {s₁ s₂ s₃}, R s₁ s₂ → R s₂ s₃ → R s₁ s₃)
    (hinv : ∀ {s a s'}, ok s a → I s → step s a = some s' → I s')
    (hstep : ∀ {s a s'}, ok s a → I s → step s a = some s' → R s s')
    (h : Run step ok s as s') (hs : I s) : R s s' := by
  induction h with
  | nil => exact hrefl _
  | cons hok ha _ ih => exact htrans (hstep hok hs ha) (ih (hinv hok hs ha))

/-- Where every step decides whether it keeps `P`, the condition it decides by is the exact one:
`P` holds all along a run exactly when every step of it is allowed. -/
theorem always_iff {P : σ → Prop}
    (hinv : ∀ {s a s'}, I s → step s a = some s' → I s')
    (hstep : ∀ {s a s'}, I s → P s → step s a = some s' → (P s' ↔ ok s a))
    (h : FreeRun step s as s') (hs : I s) (hp : P s) :
    Always step P s as ↔ Run step ok s as s' := by
  induction h with
  | nil => exact ⟨fun _ => .nil, fun _ => hp⟩
  | @cons s a s₁ as s' _ ha hrun ih =>
    have hhead : ∀ {as}, Always step P s₁ as → P s₁ := by
      intro as
      cases as with
      | nil => exact id
      | cons => exact And.left
    constructor
    · rintro ⟨-, htail⟩
      have htail := htail s₁ ha
      have hp₁ := hhead htail
      exact .cons ((hstep hs hp ha).mp hp₁) ha ((ih (hinv hs ha) hp₁).mp htail)
    rintro (_ | ⟨hok, ha', hrun'⟩)
    obtain rfl : s₁ = _ := some.inj (ha.symm.trans ha')
    refine ⟨hp, fun s₂ h₂ => ?_⟩
    obtain rfl : s₁ = s₂ := some.inj (ha.symm.trans h₂)
    exact (ih (hinv hs ha) ((hstep hs hp ha).mpr hok)).mpr hrun'

/-- What every step keeps holds all along the way, whatever the actions are. -/
theorem always (hstep : ∀ {s a s'}, I s → step s a = some s' → I s') (hs : I s) :
    Always step I s as := by
  induction as generalizing s with
  | nil => exact hs
  | cons a as ih => exact ⟨hs, fun _ h => ih (hstep hs h)⟩

/-- The same for a law of the steps: it holds of every step of a run exactly when every step is
allowed. -/
theorem everyStep_iff (hinv : ∀ {s a s'}, I s → step s a = some s' → T s a s' → I s')
    (hstep : ∀ {s a s'}, I s → step s a = some s' → (T s a s' ↔ ok s a))
    (h : FreeRun step s as s') (hs : I s) : EveryStep step T s as ↔ Run step ok s as s' := by
  induction h with
  | nil => exact ⟨fun _ => .nil, fun _ => trivial⟩
  | @cons s a s₁ as s' _ ha _ ih =>
    constructor
    · intro hevery
      obtain ⟨ht, htail⟩ := hevery s₁ ha
      exact .cons ((hstep hs ha).mp ht) ha ((ih (hinv hs ha ht)).mp htail)
    rintro (_ | ⟨hok, ha', hrun⟩) s₂ h₂
    obtain rfl : s₁ = _ := some.inj (ha.symm.trans ha')
    obtain rfl : s₁ = s₂ := some.inj (ha.symm.trans h₂)
    have ht := (hstep hs ha).mpr hok
    exact ⟨ht, (ih (hinv hs ha ht)).mpr hrun⟩

/-- A law that every allowed step keeps, under an invariant, holds of every step of a run. -/
theorem everyStep (hstep : ∀ {s a s'}, ok s a → I s → step s a = some s' → I s' ∧ T s a s')
    (h : Run step ok s as s') (hs : I s) : EveryStep step T s as := by
  induction h with
  | nil => trivial
  | @cons s a s₁ as s' hok ha _ ih =>
    intro s₂ h₂
    obtain rfl : s₁ = s₂ := some.inj (ha.symm.trans h₂)
    obtain ⟨hs₁, ht⟩ := hstep hok hs ha
    exact ⟨ht, ih hs₁⟩

/-- A run of one system is mirrored by a run of another that simulates it step by step. -/
theorem simulate {step' : σ' → α' → Option σ'} {ok' : σ' → α' → Prop} {R : σ → σ' → Prop}
    (hsim : ∀ {s a s₁ t}, ok s a → R s t → step s a = some s₁ →
      ∃ bs t₁, Run step' ok' t bs t₁ ∧ R s₁ t₁)
    (h : Run step ok s as s') {t : σ'} (ht : R s t) :
    ∃ bs t', Run step' ok' t bs t' ∧ R s' t' := by
  induction h generalizing t with
  | nil => exact ⟨[], t, .nil, ht⟩
  | cons hok ha _ ih =>
    obtain ⟨bs, t₁, hrun, ht₁⟩ := hsim hok ht ha
    obtain ⟨cs, t', hrun', ht'⟩ := ih ht₁
    exact ⟨bs ++ cs, t', hrun.append hrun', ht'⟩

end Run
end Bluetalk

/-!
## Reducers

A reducer makes of a state and an event the next state and a list of effects. The turns of a
sequence of events are its steps one by one; what holds of every single step holds of every turn
(`Reducer.forall_turns`), what a step emits is a matter of the turns (`Reducer.flatMap_turns`), and
what a step takes in, gives back and holds is conserved over a sequence (`Reducer.conserved`).
-/

namespace Bluetalk

namespace Reducer

/-- One step of a reducer. -/
structure Turn (σ ε φ : Type*) where
  before : σ
  event : ε
  after : σ
  effects : List φ

variable {σ ε φ κ : Type*} (step : σ → ε → σ × List φ) (s : σ) (e : ε) (es : List ε)

def turn : Turn σ ε φ := ⟨s, e, (step s e).1, (step s e).2⟩

def turns : σ → List ε → List (Turn σ ε φ)
  | _, [] => []
  | s, e :: es => turn step s e :: turns (step s e).1 es

def final : σ := es.foldl (fun s e => (step s e).1) s

/-- Everything that is emitted along the way. -/
def emitted : List φ := (turns step s es).flatMap Turn.effects

variable {step s e es} {f : Turn σ ε φ → List κ}

@[simp] theorem turns_nil : turns step s [] = [] := rfl

@[simp] theorem turns_cons :
    turns step s (e :: es) = turn step s e :: turns step (step s e).1 es := rfl

@[simp] theorem final_nil : final step s [] = s := rfl

@[simp] theorem final_cons : final step s (e :: es) = final step (step s e).1 es := rfl

theorem forall_turns {P : Turn σ ε φ → Prop} (hstep : ∀ s e, P (turn step s e)) :
    ∀ t ∈ turns step s es, P t := by
  induction es generalizing s with
  | nil => exact fun _ h => absurd h not_mem_nil
  | cons e es ih =>
    rw [turns_cons, forall_mem_cons]
    exact ⟨hstep s e, ih⟩

/-- Two accounts of the turns that agree on every single one. -/
theorem flatMap_turns {g : Turn σ ε φ → List κ}
    (hstep : ∀ s e, f (turn step s e) = g (turn step s e)) :
    (turns step s es).flatMap f = (turns step s es).flatMap g :=
  flatMap_congr fun t ht => forall_turns (P := fun t => f t = g t) hstep t ht

theorem flatMap_filter {p : Turn σ ε φ → Bool} {ts : List (Turn σ ε φ)} :
    (ts.filter p).flatMap f = ts.flatMap fun t => if p t then f t else [] := by
  induction ts with
  | nil => rfl
  | cons t ts ih =>
    rw [filter_cons, flatMap_cons]
    split
    · rw [flatMap_cons, ih]
    · rw [ih, nil_append]

/-- What is held, with all that comes in, is all that goes out with what is held in the end, and in
the same order. -/
theorem conserved {comes goes : Turn σ ε φ → List κ} (held : σ → List κ)
    (hstep : ∀ s e, held s ++ comes (turn step s e) = goes (turn step s e) ++ held (step s e).1) :
    held s ++ (turns step s es).flatMap comes =
      (turns step s es).flatMap goes ++ held (final step s es) := by
  induction es generalizing s with
  | nil => simp
  | cons e es ih =>
    simp only [turns_cons, flatMap_cons, final_cons]
    rw [← append_assoc, hstep, append_assoc, ih, append_assoc]

end Reducer
end Bluetalk

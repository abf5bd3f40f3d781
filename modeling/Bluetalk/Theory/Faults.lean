import Mathlib.Tactic.Common

/-!
# Programs that may fail or die at every step

A program works on a state in steps. The world decides of each step whether it works, fails, or is
never reached because the process dies. A failure can be handled, a death cannot. `Ensures` says of
a program what holds when it is done, when it hands an error to its caller, and when it has died;
its rules are equivalences, so that they also say when something does not hold.
-/

namespace Bluetalk

/-- What the world decides of a step -/
inductive Fate
  | works | fails | dies

universe u

/-- How a program ends -/
inductive Ending (ε α : Type u)
  | done (a : α)
  | failed (e : ε)
  | died

/-- A program on states of type `σ` -/
def Prog (σ ε α : Type u) := σ → Ending ε α × σ

namespace Prog

variable {σ ε α β : Type u} {τ : Type*}

protected def pure (a : α) : Prog σ ε α := fun s => (.done a, s)

protected def bind (p : Prog σ ε α) (f : α → Prog σ ε β) : Prog σ ε β := fun s =>
  match p s with
  | (.done a, s') => f a s'
  | (.failed e, s') => (.failed e, s')
  | (.died, s') => (.died, s')

instance : Monad (Prog σ ε) where
  pure := Prog.pure
  bind := Prog.bind

def fail (e : ε) : Prog σ ε α := fun s => (.failed e, s)

def get : Prog σ ε σ := fun s => (.done s, s)

def modify (f : σ → σ) : Prog σ ε PUnit := fun s => (.done ⟨⟩, f s)

/-- A step that changes the state by `f` if it works -/
def step (fate : Fate) (e : ε) (f : σ → σ) : Prog σ ε PUnit := fun s =>
  match fate with
  | .works => (.done ⟨⟩, f s)
  | .fails => (.failed e, s)
  | .dies => (.died, s)

/-- `h` takes care of a failure of `p`. -/
def handle (p : Prog σ ε α) (h : ε → Prog σ ε α) : Prog σ ε α := fun s =>
  match p s with
  | (.done a, s') => (.done a, s')
  | (.failed e, s') => h e s'
  | (.died, s') => (.died, s')

/-- A failure of `p` is of no interest. -/
def ignore (p : Prog σ ε PUnit) : Prog σ ε PUnit := p.handle fun _ => pure ⟨⟩

/-- `p`, where `c` holds -/
def when (c : Bool) (p : Prog σ ε PUnit) : Prog σ ε PUnit := if c then p else pure ⟨⟩

/-- `Q` holds when the program is done, `E` when it fails and `D` when it has died. -/
def Ensures (p : Prog σ ε α) (s : σ) (Q : α → σ → Prop) (E : ε → σ → Prop) (D : σ → Prop) : Prop :=
  match p s with
  | (.done a, s') => Q a s'
  | (.failed e, s') => E e s'
  | (.died, s') => D s'

variable {p : Prog σ ε α} {s : σ} {Q Q' : α → σ → Prop} {E E' : ε → σ → Prop} {D D' : σ → Prop}
  {f : σ → σ} {c : Bool} {h : ε → Prog σ ε α} {fate : Fate}

@[simp] theorem ensures_pure {a : α} : (pure a : Prog σ ε α).Ensures s Q E D ↔ Q a s := Iff.rfl

@[simp] theorem ensures_fail {e : ε} : (fail e : Prog σ ε α).Ensures s Q E D ↔ E e s := Iff.rfl

@[simp] theorem ensures_modify {Q : PUnit → σ → Prop} :
    (modify f : Prog σ ε PUnit).Ensures s Q E D ↔ Q ⟨⟩ (f s) := Iff.rfl

@[simp] theorem ensures_bind {f : α → Prog σ ε β} {Q : β → σ → Prop} :
    (p >>= f).Ensures s Q E D ↔ p.Ensures s (fun a s' => (f a).Ensures s' Q E D) E D := by
  change (Prog.bind p f).Ensures s Q E D ↔ _
  rw [Ensures, Ensures, Prog.bind]
  rcases p s with ⟨a | e | _, s'⟩
  · rfl
  · rfl
  · rfl

@[simp] theorem ensures_get {Q : σ → σ → Prop} :
    (get : Prog σ ε σ).Ensures s Q E D ↔ Q s s := Iff.rfl

@[simp] theorem ensures_when {p : Prog σ ε PUnit} {Q : PUnit → σ → Prop} :
    (when c p).Ensures s Q E D ↔
      (c = true → p.Ensures s Q E D) ∧ (c = false → Q ⟨⟩ s) := by
  cases c <;> simp [when]

@[simp] theorem ensures_handle :
    (p.handle h).Ensures s Q E D ↔ p.Ensures s Q (fun e s' => (h e).Ensures s' Q E D) D := by
  rw [Ensures, Ensures, handle]
  rcases p s with ⟨a | e | _, s'⟩
  · rfl
  · rfl
  · rfl

@[simp] theorem ensures_ignore {p : Prog σ ε PUnit} {Q : PUnit → σ → Prop} :
    p.ignore.Ensures s Q E D ↔ p.Ensures s Q (fun _ => Q ⟨⟩) D := ensures_handle

theorem ensures_step {e : ε} {Q : PUnit → σ → Prop} :
    (step fate e f).Ensures s Q E D ↔
      (fate = .works → Q ⟨⟩ (f s)) ∧ (fate = .fails → E e s) ∧ (fate = .dies → D s) := by
  cases fate <;> simp [Ensures, step]

theorem Ensures.mono (h : p.Ensures s Q E D) (hQ : ∀ a s', Q a s' → Q' a s')
    (hE : ∀ e s', E e s' → E' e s') (hD : ∀ s', D s' → D' s') : p.Ensures s Q' E' D' := by
  rw [Ensures] at h ⊢
  generalize p s = r at h ⊢
  obtain ⟨a | e | _, s'⟩ := r
  · exact hQ _ _ h
  · exact hE _ _ h
  · exact hD _ h

theorem Ensures.and (h : p.Ensures s Q E D) (h' : p.Ensures s Q' E' D') :
    p.Ensures s (fun a s' => Q a s' ∧ Q' a s') (fun e s' => E e s' ∧ E' e s')
      fun s' => D s' ∧ D' s' := by
  rw [Ensures] at h h' ⊢
  generalize p s = r at h h' ⊢
  obtain ⟨a | e | _, s'⟩ := r
  · exact ⟨h, h'⟩
  · exact ⟨h, h'⟩
  · exact ⟨h, h'⟩

theorem ensures_of_forall (hQ : ∀ a s', Q a s') (hE : ∀ e s', E e s') (hD : ∀ s', D s') :
    p.Ensures s Q E D := by
  rw [Ensures]
  obtain ⟨a | e | _, s'⟩ := p s
  · exact hQ a s'
  · exact hE e s'
  · exact hD s'

/-- What holds however the program ends -/
theorem Ensures.elim {P : Prop} (h : p.Ensures s (fun _ _ => P) (fun _ _ => P) fun _ => P) : P := by
  rw [Ensures] at h
  generalize p s = r at h
  obtain ⟨a | e | _, s'⟩ := r
  · exact h
  · exact h
  · exact h

/-! ## What a program does not touch -/

/-- However the program ends, `g` of the state is what it was. -/
def Leaves (p : Prog σ ε α) (g : σ → τ) : Prop :=
  ∀ s, p.Ensures s (fun _ s' => g s' = g s) (fun _ s' => g s' = g s) fun s' => g s' = g s

variable {g : σ → τ}

theorem leaves_pure (a : α) : (pure a : Prog σ ε α).Leaves g := fun _ => rfl

theorem leaves_fail (e : ε) : (fail e : Prog σ ε α).Leaves g := fun _ => rfl

theorem leaves_get : (get : Prog σ ε σ).Leaves g := fun _ => rfl

theorem leaves_step {e : ε} (h : ∀ s, g (f s) = g s) :
    (step fate e f).Leaves g :=
  fun s => ensures_step.mpr ⟨fun _ => h s, fun _ => rfl, fun _ => rfl⟩

theorem Leaves.bind {f : α → Prog σ ε β} (h : p.Leaves g) (hf : ∀ a, (f a).Leaves g) :
    (p >>= f).Leaves g := by
  intro s
  refine ensures_bind.mpr ((h s).mono (fun a s' hs => ?_) (fun _ _ => id) fun _ => id)
  rw [← hs]
  exact hf a s'

theorem Leaves.handle (hp : p.Leaves g) (hh : ∀ e, (h e).Leaves g) :
    (p.handle h).Leaves g := by
  intro s
  refine ensures_handle.mpr ((hp s).mono (fun _ _ => id) (fun e s' hs => ?_) fun _ => id)
  rw [← hs]
  exact hh e s'

theorem Leaves.ignore {p : Prog σ ε PUnit} (hp : p.Leaves g) : p.ignore.Leaves g :=
  hp.handle fun _ => leaves_pure _

theorem Leaves.when {p : Prog σ ε PUnit} (hp : p.Leaves g) : (when c p).Leaves g := by
  cases c with
  | false => exact leaves_pure _
  | true => exact hp

end Prog
end Bluetalk

import Bluetalk.Js.Number
import Bluetalk.Theory.Layers

/-!
# Chips, settings and pots

Chips are numbers of the program: whole ones, as every amount that comes in is rounded, or `NaN`,
which no sum or comparison gets rid of.
-/

namespace Bluetalk.Poker

inductive Chips
  | nan
  | amount (n : Int)
deriving DecidableEq

namespace Chips

variable {a b : Chips} {m n : Int}

/-- An operation of which `NaN` is the result as soon as it is one of the operands -/
def map₂ (f : Int → Int → Int) : Chips → Chips → Chips
  | amount m, amount n => amount (f m n)
  | _, _ => nan

instance : Add Chips := ⟨map₂ (· + ·)⟩

instance : Sub Chips := ⟨map₂ (· - ·)⟩

/-- `Math.min(a, b)` -/
instance : Min Chips := ⟨map₂ min⟩

/-- `Math.max(a, b)` -/
instance : Max Chips := ⟨map₂ max⟩

/-- `a <= b`, which is false of `NaN` -/
def le : Chips → Chips → Bool
  | amount m, amount n => m ≤ n
  | _, _ => false

/-- `a < b` -/
def lt : Chips → Chips → Bool
  | amount m, amount n => m < n
  | _, _ => false

/-- `a === b` -/
def same : Chips → Chips → Bool
  | amount m, amount n => m = n
  | _, _ => false

/-- `Math.max(...chips)`. It is not asked for where there are none. -/
def maximum : List Chips → Chips
  | [] => nan
  | a :: as => as.foldl max a

@[simp] theorem amount_add : amount m + amount n = amount (m + n) := rfl

@[simp] theorem amount_sub : amount m - amount n = amount (m - n) := rfl

@[simp] theorem amount_min : min (amount m) (amount n) = amount (min m n) := rfl

@[simp] theorem amount_max : max (amount m) (amount n) = amount (max m n) := rfl

@[simp] theorem le_amount : le (amount m) (amount n) = decide (m ≤ n) := rfl

@[simp] theorem lt_amount : lt (amount m) (amount n) = decide (m < n) := rfl

@[simp] theorem same_amount : same (amount m) (amount n) = decide (m = n) := rfl

end Chips
end Bluetalk.Poker

/-!
## The settings and the pots of poker
-/

namespace Bluetalk.Poker

inductive LobbyAccess
  | invite
  | everyone
deriving DecidableEq

/-- The settings of a table -/
structure Settings where
  smallBlind : Nat
  bigBlind : Nat
  ante : Nat
  maxPlayers : Nat
  startingChips : Nat
  turnTimeSec : Nat
  minRaiseBB : Nat
  lobbyAccess : LobbyAccess

/-- Settings as they come in: the keys that are there, with `Number(value)` of the numeric ones. -/
structure SettingsInput where
  smallBlind : Option Number
  bigBlind : Option Number
  ante : Option Number
  maxPlayers : Option Number
  startingChips : Option Number
  turnTimeSec : Option Number
  minRaiseBB : Option Number
  lobbyAccess : Option String

def defaultSettings : Settings where
  smallBlind := 10
  bigBlind := 20
  ante := 0
  maxPlayers := 6
  startingChips := 2000
  turnTimeSec := 0
  minRaiseBB := 1
  lobbyAccess := .invite

/-- `{ ...fallback, ...input }` at a numeric key -/
def overridden (input : Option Number) (fallback : Nat) : Number :=
  input.getD (.finite fallback)

/-- `fallback || n` -/
def orElse (fallback n : Nat) : Nat := if fallback = 0 then n else fallback

def sanitizeSettings (input : SettingsInput) (fallback : Settings) (minSeats : Nat) : Settings :=
  let smallBlind := clampInt (overridden input.smallBlind fallback.smallBlind) 1 1000000
    (orElse fallback.smallBlind 10)
  let bigBlind := clampInt (overridden input.bigBlind fallback.bigBlind) smallBlind 2000000
    (max smallBlind (orElse fallback.bigBlind 20))
  { smallBlind
    bigBlind
    ante := clampInt (overridden input.ante fallback.ante) 0 1000000 fallback.ante
    startingChips := clampInt (overridden input.startingChips fallback.startingChips)
      (bigBlind * 2) 1000000000 (orElse fallback.startingChips 2000)
    maxPlayers := clampInt (overridden input.maxPlayers fallback.maxPlayers) (max 2 minSeats) 9
      (max 6 minSeats)
    turnTimeSec := clampInt (overridden input.turnTimeSec fallback.turnTimeSec) 0 300
      fallback.turnTimeSec
    minRaiseBB := clampInt (overridden input.minRaiseBB fallback.minRaiseBB) 1 10
      (orElse fallback.minRaiseBB 1)
    lobbyAccess := match input.lobbyAccess with
      | none => fallback.lobbyAccess
      | some access => if access = "public" then .everyone else .invite }

/-- What the sanitizer answers for: there are blinds and stacks, and at most nine seats. -/
structure Settings.Sane (cfg : Settings) : Prop where
  smallBlind : 1 ≤ cfg.smallBlind
  bigBlind : cfg.smallBlind ≤ cfg.bigBlind
  startingChips : 1 ≤ cfg.startingChips
  minRaiseBB : 1 ≤ cfg.minRaiseBB
  maxPlayers : cfg.maxPlayers ≤ 9

variable {fallback max min : Nat} {value : Number}

theorem le_orElse {n : Nat} (h : 1 ≤ n) : 1 ≤ orElse fallback n := by
  rw [orElse]
  split
  · exact h
  · omega

theorem clampInt_le {bound : Nat} (hmin : min ≤ bound)
    (hmax : max ≤ bound) (h : fallback ≤ bound) : clampInt value min max fallback ≤ bound := by
  rw [clampInt]
  cases value.round? with
  | none => exact h
  | some => exact Nat.max_le.mpr ⟨hmin, (Nat.min_le_left _ _).trans hmax⟩

theorem one_le_clampInt (hmin : 1 ≤ min)
    (h : 1 ≤ fallback) : 1 ≤ clampInt value min max fallback := by
  rw [clampInt]
  cases value.round? with
  | none => exact h
  | some => exact hmin.trans (Nat.le_max_left _ _)

theorem sane_sanitizeSettings (input : SettingsInput) (fallback : Settings) {minSeats : Nat}
    (h : minSeats ≤ 9) : (sanitizeSettings input fallback minSeats).Sane := by
  have hsmall : 1 ≤ (sanitizeSettings input fallback minSeats).smallBlind :=
    le_clampInt (le_orElse (by decide))
  have hbig : (sanitizeSettings input fallback minSeats).smallBlind ≤
      (sanitizeSettings input fallback minSeats).bigBlind :=
    le_clampInt (Nat.le_max_left _ _)
  exact {
    smallBlind := hsmall
    bigBlind := hbig
    startingChips := one_le_clampInt (Nat.mul_pos (hsmall.trans hbig) (by decide))
      (le_orElse (by decide))
    minRaiseBB := le_clampInt (le_orElse (by decide))
    maxPlayers := clampInt_le (by omega) le_rfl (by omega) }

/-! ### Pots -/

/-- Whether a key of an object is an array index -/
def arrayIndex? (key : String) : Option Nat :=
  key.toNat?.filter fun n => toString n = key ∧ n < 2 ^ 32 - 1

/-- The order in which `Object.keys` lists keys that were set in the order of `l`: array indices
first, by their size. -/
def keyOrder {α : Type*} (key : α → String) (l : List α) : List α :=
  (l.filter fun a => (arrayIndex? (key a)).isSome).insertionSort
      (fun a b => (arrayIndex? (key a)).getD 0 ≤ (arrayIndex? (key b)).getD 0) ++
    l.filter fun a => !(arrayIndex? (key a)).isSome

theorem keyOrder_perm {α : Type*} (key : α → String) (l : List α) : (keyOrder key l).Perm l :=
  ((List.perm_insertionSort _ _).append_right _).trans
    (List.filter_append_perm (fun a => (arrayIndex? (key a)).isSome) l)

/-- A contribution, where it is above 0 -/
def positive? (c : String × Chips) : Option (String × Nat) :=
  match c.2 with
  | .amount n => if 0 < n then some (c.1, n.toNat) else none
  | .nan => none

/-- `buildSidePots` of an object with the given fields -/
def buildSidePots (contrib : List (String × Chips)) : List (Layer String) :=
  layers ((keyOrder Prod.fst contrib).filterMap positive?)

end Bluetalk.Poker

namespace Bluetalk.Poker

/-- What is put in as an object, all of it numbers from 0 on -/
def contribFields (contrib : List (String × Nat)) : List (String × Chips) :=
  contrib.map fun c => (c.1, .amount c.2)

/-- The pots are what was put in. They belong to fewer and fewer, each to those who have put in so
much, and in the pots of one player there is of another what the one has put in at most. -/
structure FairPots (contrib : List (String × Nat)) (pots : List (Layer String)) : Prop where
  total : (pots.map Layer.amount).sum = (contrib.map Prod.snd).sum
  shrink : pots.Pairwise fun upper lower =>
    lower.eligible ⊆ upper.eligible ∧ ∃ id ∈ upper.eligible, id ∉ lower.eligible
  reaches : ∃ caps : List Nat, caps.Pairwise (· < ·) ∧
    (∀ n, n ∈ caps ↔ 0 < n ∧ ∃ c ∈ contrib, c.2 = n) ∧
    List.Forall₂ (fun cap layer => ∀ c ∈ contrib, c.1 ∈ layer.eligible ↔ cap ≤ c.2) caps pots
  own : ∀ c ∈ contrib, ∀ d ∈ contrib,
    ((pots.filter (d.1 ∈ ·.eligible)).map (·.part c.1)).sum = min c.2 d.2

/-- Some order of what was put in is cut into layers. -/
theorem buildSidePots_eq (contrib : List (String × Nat)) : ∃ all : List (String × Nat),
    all.Perm contrib ∧ buildSidePots (contribFields contrib) =
      layersFrom all 0 (levels (all.filter (0 < ·.2))) := by
  let read (c : String × Chips) : String × Nat :=
    (c.1, match c.2 with | .amount n => n.toNat | .nan => 0)
  have hpositive : ∀ l : List (String × Chips), l.filterMap positive? = (l.map read).filter (0 < ·.2) := by
    intro l
    rw [← List.filterMap_eq_filter, List.filterMap_map]
    refine List.filterMap_congr fun c _ => ?_
    obtain ⟨id, n | n⟩ := c
    · rfl
    · by_cases h : 0 < n
      · simp [positive?, read, Option.guard, h]
      · simp [positive?, read, Option.guard, h]
  have hread : (contribFields contrib).map read = contrib := by
    rw [contribFields, List.map_map]
    exact List.map_id _
  refine ⟨(keyOrder Prod.fst (contribFields contrib)).map read,
    ((keyOrder_perm _ _).map read).trans (.of_eq hread), ?_⟩
  rw [buildSidePots, hpositive, layers, layersFrom_filter]
  intro cap hcap
  obtain ⟨c, hc, rfl⟩ := mem_levels.mp hcap
  exact of_decide_eq_true (List.mem_filter.mp hc).2

/-- Whatever is put in, under different keys, makes fair pots. -/
theorem buildSidePots_fair (contrib : List (String × Nat))
    (hkeys : (contrib.map Prod.fst).Nodup) :
    FairPots contrib (buildSidePots (contribFields contrib)) := by
  obtain ⟨all, hall, hpots⟩ := buildSidePots_eq contrib
  have hkeys : (all.map Prod.fst).Nodup := (hall.map _).nodup_iff.mpr hkeys
  have hlevels : ∀ n, n ∈ levels (all.filter (0 < ·.2)) ↔ 0 < n ∧ ∃ c ∈ contrib, c.2 = n := by
    intro n
    rw [mem_levels]
    constructor
    · rintro ⟨c, hc, rfl⟩
      obtain ⟨hc, hpos⟩ := List.mem_filter.mp hc
      exact ⟨of_decide_eq_true hpos, c, hall.mem_iff.mp hc, rfl⟩
    · rintro ⟨hpos, c, hc, rfl⟩
      exact ⟨c, List.mem_filter.mpr ⟨hall.mem_iff.mpr hc, decide_eq_true hpos⟩, rfl⟩
  have hsorted : (0 :: levels (all.filter (0 < ·.2))).Pairwise (· < ·) :=
    List.pairwise_cons.mpr ⟨fun n hn => ((hlevels n).mp hn).1, levels_pairwise _⟩
  have hreached : ∀ c ∈ contrib, c.2 ≤ 0 ∨ c.2 ∈ levels (all.filter (0 < ·.2)) := by
    intro c hc
    rw [hlevels, or_iff_not_imp_left, not_le]
    exact fun hpos => ⟨hpos, c, hc, rfl⟩
  rw [hpots]
  constructor
  case total =>
    rw [sum_amount_layersFrom (hsorted.imp fun h => h.le) fun c hc => hreached c (hall.mem_iff.mp hc)]
    exact (hall.map Prod.snd).sum_eq
  case shrink =>
    refine layersFrom_shrink hkeys (levels_pairwise _) fun cap hcap => ?_
    obtain ⟨-, c, hc, hcap⟩ := (hlevels cap).mp hcap
    exact ⟨c, hall.mem_iff.mpr hc, hcap⟩
  case reaches =>
    refine ⟨_, levels_pairwise _, hlevels, (reaches_layersFrom hkeys).imp fun cap layer h c hc => ?_⟩
    exact h c (hall.mem_iff.mpr hc)
  case own =>
    intro c hc d hd
    refine sum_part_layersFrom hkeys hsorted (hall.mem_iff.mpr hc) (hall.mem_iff.mpr hd) ?_
    obtain h | h := min_choice c.2 d.2
    · rw [h]
      exact hreached c hc
    · rw [h]
      exact hreached d hd

theorem buildSidePots_fair_three : FairPots [("a", 5), ("b", 0), ("c", 2)]
    (buildSidePots (contribFields [("a", 5), ("b", 0), ("c", 2)])) :=
  buildSidePots_fair _ (by decide)

end Bluetalk.Poker

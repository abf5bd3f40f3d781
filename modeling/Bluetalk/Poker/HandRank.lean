import Mathlib.Data.List.Dedup
import Mathlib.Data.List.Sort
import Bluetalk.Theory.Positions

/-!
# Cards and hands of poker

A card is a number below 52: its rank, from the two up to the ace, and 13 times its suit.
-/

namespace Bluetalk.Poker

abbrev Card := Nat

/-- `c % 13` -/
def rank (c : Card) : Nat := c % 13

/-- `(c / 13) | 0` -/
def suit (c : Card) : Nat := c / 13

def makeDeck : List Card :=
  (List.range 4).flatMap fun s => (List.range 13).map fun r => s * 13 + r

end Bluetalk.Poker

/-!
## The rank of a hand

A hand of five cards scores a list of numbers, the kind of hand first and then the ranks that decide
between two of a kind. Of seven cards the best five count.
-/

namespace Bluetalk.Poker

/-- How often a rank occurs -/
structure Frequency where
  k : Nat
  n : Nat

def descending (ranks : List Nat) : List Nat := ranks.insertionSort (· ≥ ·)

/-- The ranks that occur in `r`, the more frequent first and of equally frequent ones the higher -/
def byFreq (r : List Nat) : List Frequency :=
  (r.dedup.map fun k => ⟨k, r.count k⟩).insertionSort fun a b => b.n < a.n ∨ a.n = b.n ∧ b.k ≤ a.k

/-- The highest rank of a straight, the ace below the two included; `none` for `-1` -/
def straightHigh (uniq : List Nat) : Option Nat :=
  match uniq with
  | [a, b, c, d, e] =>
    if a = 12 ∧ b = 3 ∧ c = 2 ∧ d = 1 ∧ e = 0 then some 3
    else if a - e = 4 then some a
    else none
  | _ => none

/-- The score of five cards. A rank that is missing is left out, and counts as 0. -/
def scoreFive (cards5 : List Card) : List Nat :=
  let r := descending (cards5.map rank)
  let suits := cards5.map suit
  let flush := suits.all fun x => suits.head? = some x
  let freq := byFreq r
  let first := freq.headD ⟨0, 0⟩
  let second := freq.tail.headD ⟨0, 0⟩
  match straightHigh (descending r.dedup), flush with
  | some high, true => [8, high]
  | straight, flush =>
    if first.n = 4 then [7, first.k] ++ (r.find? (· ≠ first.k)).toList
    else if first.n = 3 ∧ second.n = 2 then [6, first.k, second.k]
    else if flush then 5 :: r
    else match straight with
      | some high => [4, high]
      | none =>
        if first.n = 3 then [3, first.k] ++ (r.filter (· ≠ first.k)).take 2
        else if first.n = 2 ∧ second.n = 2 then
          let p1 := max first.k second.k
          let p2 := min first.k second.k
          [2, p1, p2] ++ (r.find? fun x => x ≠ p1 ∧ x ≠ p2).toList
        else if first.n = 2 then [1, first.k] ++ (r.filter (· ≠ first.k)).take 3
        else 0 :: r

/-- The first `n` numbers of two scores, where a missing one counts as 0 -/
def cmpUpTo : Nat → List Nat → List Nat → Ordering
  | 0, _, _ => .eq
  | n + 1, a, b => (compare (a.headD 0) (b.headD 0)).then (cmpUpTo n a.tail b.tail)

/-- The sign of the source's `cmpScore` -/
def cmpScore (a b : List Nat) : Ordering := cmpUpTo (max a.length b.length) a b

/-- The choices of `k` cards, as nested loops over their positions find them -/
def combos : Nat → List Card → List (List Card)
  | 0, _ => [[]]
  | _ + 1, [] => []
  | k + 1, c :: cards => (combos k cards).map (c :: ·) ++ combos (k + 1) cards

variable {α : Type*}

/-- A better member takes the place of the best so far, and an equal one joins them. -/
def challenge (cmp : α → α → Ordering) : List α → α → List α
  | [], a => [a]
  | b :: bs, a =>
    match cmp a b with
    | .gt => [a]
    | .eq => b :: bs ++ [a]
    | .lt => b :: bs

def champions (cmp : α → α → Ordering) (l : List α) : List α := l.foldl (challenge cmp) []

/-- One step of a scan for the best: only a better member takes its place. -/
def better (cmp : α → α → Ordering) : Option α → α → Option α
  | none, a => some a
  | some b, a => if cmp a b = .gt then some a else some b

/-- The first of the best -/
def best (cmp : α → α → Ordering) (l : List α) : Option α := l.foldl (better cmp) none

def best7 (cards7 : List Card) : Option (List Nat) :=
  best cmpScore ((combos 5 cards7).map scoreFive)

/-- A full house of aces over kings, and the straight up to the five. -/
example : scoreFive [12, 25, 38, 11, 24] = [6, 12, 11] ∧ scoreFive [12, 0, 14, 2, 3] = [4, 3] := by
  decide +kernel

end Bluetalk.Poker

import Bluetalk.Js.Text
import Mathlib.Algebra.Order.BigOperators.Group.List
import Mathlib.Algebra.Order.Group.Nat

/-!
# Texts that are trimmed and cut

`String(x || '').trim().slice(0, n)`. The cut may leave white space at the end, so that cleaning a
second time takes more away; a third time does not.
-/

open List

namespace Bluetalk

/-- The first `n` code units: a pair that is cut in two leaves a `U+FFFD`. -/
def takeUnits : Nat → List Char → List Char
  | 0, _ | _, [] => []
  | n + 1, c :: cs =>
    if 0x10000 ≤ c.val then
      match n with
      | 0 => ['\uFFFD']
      | n + 1 => c :: takeUnits n cs
    else c :: takeUnits n cs

/-- `s.slice(0, n)` -/
def jsSlice (s : String) (n : Nat) : String := String.ofList (takeUnits n s.toList)

/-- `s.trim().slice(0, n)` -/
def cleanText (s : String) (n : Nat) : String := jsSlice (jsTrim s) n

/-- `String(value || '').trim().slice(0, n)` -/
def cleanString (value : Json) (n : Nat) : String := cleanText value.textOrEmpty n

/-- Cleaning leaves the text as it is. -/
def Clean (n : Nat) (s : String) : Prop := cleanText s n = s

instance {n : Nat} {s : String} : Decidable (Clean n s) := inferInstanceAs (Decidable (_ = _))

variable {s : String} {n : Nat}

@[simp] theorem textOrEmpty_str : (Json.str s).textOrEmpty = s := by
  rw [Json.textOrEmpty, Json.truthy, Json.toText]
  by_cases h : s = ""
  · simp [h]
  · simp [h]

@[simp] theorem cleanString_str : cleanString (.str s) n = cleanText s n := by
  rw [cleanString, textOrEmpty_str]

@[simp] theorem textOrEmpty_null : Json.null.textOrEmpty = "" := rfl

def unitsOf (cs : List Char) : Nat := (cs.map fun c => if 0x10000 ≤ c.val then 2 else 1).sum

theorem utf16Length_ofList {cs : List Char} : utf16Length (String.ofList cs) = unitsOf cs := by
  rw [utf16Length, String.toList_ofList, unitsOf]

theorem unitsOf_takeUnits (n : Nat) (cs : List Char) : unitsOf (takeUnits n cs) ≤ n := by
  fun_induction takeUnits n cs with
  | case1 | case2 => exact Nat.zero_le _
  | case3 c cs => exact le_refl 1
  | case4 c cs hwide n ih =>
    simp only [unitsOf, map_cons, sum_cons, hwide, if_true] at ih ⊢
    omega
  | case5 n c cs hnarrow ih =>
    simp only [unitsOf, map_cons, sum_cons, hnarrow, if_false] at ih ⊢
    omega

theorem takeUnits_of_le (n : Nat) (cs : List Char) (h : unitsOf cs ≤ n) : takeUnits n cs = cs := by
  fun_induction takeUnits n cs with
  | case1 cs =>
    cases cs with
    | nil => rfl
    | cons c cs =>
      simp only [unitsOf, map_cons, sum_cons] at h
      split at h <;> omega
  | case2 => rfl
  | case3 c cs hwide =>
    simp only [unitsOf, map_cons, sum_cons, hwide, if_true] at h
    omega
  | case4 c cs hwide n ih =>
    simp only [unitsOf, map_cons, sum_cons, hwide, if_true] at h ih
    rw [ih (by omega)]
  | case5 n c cs hnarrow ih =>
    simp only [unitsOf, map_cons, sum_cons, hnarrow, if_false] at h ih
    rw [ih (by omega)]

theorem utf16Length_jsSlice : utf16Length (jsSlice s n) ≤ n := by
  rw [jsSlice, utf16Length_ofList]
  exact unitsOf_takeUnits n _

theorem jsSlice_of_le (h : utf16Length s ≤ n) : jsSlice s n = s := by
  rw [jsSlice, takeUnits_of_le n _ h, String.ofList_toList]

theorem utf16Length_jsTrim : utf16Length (jsTrim s) ≤ utf16Length s := by
  have hsub : List.Sublist (((s.toList.dropWhile isJsSpace).reverse.dropWhile isJsSpace).reverse)
      s.toList := by
    have hback := (dropWhile_sublist isJsSpace (l := (s.toList.dropWhile isJsSpace).reverse)).reverse
    rw [reverse_reverse] at hback
    exact hback.trans (dropWhile_sublist _)
  rw [jsTrim, trimBy, utf16Length_ofList]
  exact (hsub.map _).sum_le_sum fun _ _ => Nat.zero_le _

/-- The text starts with a character that is no white space. -/
def Starts (s : String) : Prop := ∃ c cs, s.toList = c :: cs ∧ isJsSpace c = false

theorem Starts.ne_empty (h : Starts s) : s ≠ "" := by
  obtain ⟨c, cs, hs, -⟩ := h
  intro hempty
  rw [hempty] at hs
  cases hs

theorem starts_jsTrim (h : jsTrim s ≠ "") : Starts (jsTrim s) := by
  have htrim : (jsTrim s).toList = (s.toList.dropWhile isJsSpace).rdropWhile isJsSpace :=
    String.toList_ofList
  cases hs : (jsTrim s).toList with
  | nil => exact absurd (String.toList_inj.mp hs) h
  | cons c cs =>
    refine ⟨c, cs, hs, ?_⟩
    have hprefix := rdropWhile_prefix isJsSpace (l := s.toList.dropWhile isJsSpace)
    rw [← htrim, hs] at hprefix
    obtain ⟨rest, hrest⟩ := hprefix
    have hhead := head?_dropWhile_not isJsSpace s.toList
    rw [← hrest] at hhead
    simpa using hhead

theorem Starts.jsTrim_ne_empty (h : Starts s) : jsTrim s ≠ "" := by
  obtain ⟨c, cs, hs, hc⟩ := h
  intro hempty
  have htrim : (s.toList.dropWhile isJsSpace).rdropWhile isJsSpace = [] := by
    rw [← String.toList_ofList (l := (s.toList.dropWhile isJsSpace).rdropWhile isJsSpace)]
    exact String.toList_inj.mpr hempty
  rw [hs, dropWhile_cons_of_neg (by simp [hc])] at htrim
  have hall := rdropWhile_eq_nil_iff.mp htrim c mem_cons_self
  rw [hc] at hall
  cases hall

theorem Starts.jsSlice (h : Starts s) (hn : 0 < n) :
    Starts (jsSlice s n) := by
  obtain ⟨c, cs, hs, hc⟩ := h
  rw [Bluetalk.jsSlice, hs, Starts, String.toList_ofList]
  cases n with
  | zero => exact absurd hn (Nat.lt_irrefl 0)
  | succ n =>
    by_cases hwide : 0x10000 ≤ c.val
    · cases n with
      | zero => exact ⟨'\uFFFD', [], by simp [takeUnits, hwide], by decide⟩
      | succ n => exact ⟨c, takeUnits n cs, by simp [takeUnits, hwide], hc⟩
    · exact ⟨c, takeUnits n cs, by rw [takeUnits.eq_def]; exact if_neg hwide, hc⟩

theorem starts_cleanText (hn : 0 < n) (h : jsTrim s ≠ "") :
    Starts (cleanText s n) := (starts_jsTrim h).jsSlice hn

theorem jsTrim_ne_empty_of_cleanText (h : cleanText s n ≠ "") :
    jsTrim s ≠ "" := by
  intro hempty
  rw [cleanText, hempty] at h
  cases n <;> exact h rfl

theorem cleanText_cleanText_ne_empty {m : Nat} (hm : 0 < m)
    (h : cleanText s n ≠ "") : cleanText (cleanText s n) m ≠ "" := by
  have hn : 0 < n := by
    cases n with
    | zero => exact absurd rfl h
    | succ n => exact Nat.succ_pos n
  have hstarts := starts_cleanText hn (jsTrim_ne_empty_of_cleanText h)
  exact (starts_cleanText hm hstarts.jsTrim_ne_empty).ne_empty

theorem utf16Length_cleanText_le :
    utf16Length (cleanText s n) ≤ utf16Length s := by
  by_cases hlength : utf16Length (jsTrim s) ≤ n
  · rw [cleanText, jsSlice_of_le hlength]
    exact utf16Length_jsTrim
  · exact utf16Length_jsSlice.trans ((not_le.mp hlength).le.trans utf16Length_jsTrim)

theorem clean_of_short (h : utf16Length s ≤ n) : Clean n (cleanText s n) := by
  have hlength : utf16Length (jsTrim s) ≤ n := utf16Length_jsTrim.trans h
  have htrim : jsTrim (jsTrim s) = jsTrim s := trimBy_trimBy
  have honce : cleanText s n = jsTrim s := jsSlice_of_le hlength
  rw [Clean, honce, cleanText, htrim]
  exact jsSlice_of_le hlength

theorem clean_cleanText : Clean n (cleanText (cleanText s n) n) := by
  have hlength : utf16Length (jsTrim (cleanText s n)) ≤ n :=
    utf16Length_jsTrim.trans utf16Length_jsSlice
  have htwice : cleanText (cleanText s n) n = jsTrim (cleanText s n) := jsSlice_of_le hlength
  have htrim : jsTrim (jsTrim (cleanText s n)) = jsTrim (cleanText s n) := trimBy_trimBy
  rw [htwice, Clean, cleanText, htrim]
  exact jsSlice_of_le hlength

@[simp] theorem cleanText_empty : cleanText "" n = "" := by
  cases n <;> rfl

-- Comparing two texts never computes what a cut leaves of them.
attribute [irreducible] cleanText

end Bluetalk

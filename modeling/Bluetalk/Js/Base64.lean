import Bluetalk.Theory.BigEndian

/-!
# `btoa` and `atob`

`bytesToBase64` and `base64ToBytes` of `chatCrypto.js`, whose texts have a character for every byte.
-/

open List

namespace Bluetalk

def isAsciiWhitespace (c : Char) : Bool :=
  c.val == 0x09 || c.val == 0x0A || c.val == 0x0C || c.val == 0x0D || c.val == 0x20

/-- Removes one or two `=` at the end. -/
def dropPadding (data : List Char) : List Char :=
  match data.reverse with
  | '=' :: '=' :: rest => rest.reverse
  | '=' :: rest => rest.reverse
  | _ => data

/-- `atob`, which does not insist on padding. -/
def atob (text : String) : Option Bytes :=
  let data := text.toList.filter fun c => !isAsciiWhitespace c
  let data := if data.length % 4 = 0 then dropPadding data else data
  if data.length % 4 = 1 then none
  else if data.all fun c => (Base64.value c).isSome then
    some (Base64.ofSextets (data.filterMap Base64.value))
  else none

def bytesToBase64 (bytes : Bytes) : String := Base64.encode bytes

def base64ToBytes (text : String) : Option Bytes := atob text

variable {bytes : Bytes}

theorem dropPadding_append {ds : List Char} {k : Nat} (hk : k ≤ 2) (h : ∀ c ∈ ds, c ≠ '=') :
    dropPadding (ds ++ List.replicate k '=') = ds := by
  have hrev : ∀ c ∈ ds.reverse, c ≠ '=' := fun c hc => h c (mem_reverse.mp hc)
  rw [dropPadding, reverse_append, reverse_replicate]
  match k, hk with
  | 0, _ =>
    rw [replicate_zero, append_nil, nil_append]
    split
    next heq => exact absurd rfl (hrev '=' (heq ▸ mem_cons_self))
    next heq => exact absurd rfl (hrev '=' (heq ▸ mem_cons_self))
    · rfl
  | 1, _ =>
    rw [replicate_one, singleton_append]
    split
    next heq =>
      have hmem : '=' ∈ ds.reverse := (List.cons.inj heq).2 ▸ mem_cons_self
      exact absurd rfl (hrev '=' hmem)
    next heq => rw [← (List.cons.inj heq).2, reverse_reverse]
    next heq => exact absurd rfl (heq _)
  | 2, _ => exact reverse_reverse ds

theorem not_isAsciiWhitespace_encodeChars {c : Char} (h : c ∈ Base64.encodeChars bytes) :
    isAsciiWhitespace c = false := by
  have hall : ∀ n : Fin 64, isAsciiWhitespace (Base64.digit n) = false := by decide
  rcases Base64.encodeChars_cases h with rfl | ⟨n, hn, rfl⟩
  · rfl
  · exact hall ⟨n, hn⟩

theorem digit_ne_pad {n : Nat} (h : n < 64) : Base64.digit n ≠ '=' := by
  have hall : ∀ n : Fin 64, Base64.digit n ≠ '=' := by decide
  exact hall ⟨n, h⟩

theorem atob_encode : atob (Base64.encode bytes) = some bytes := by
  have hfilter : (Base64.encodeChars bytes).filter (fun c => !isAsciiWhitespace c) =
      Base64.encodeChars bytes := by
    refine filter_eq_self.mpr fun c hc => ?_
    rw [not_isAsciiWhitespace_encodeChars hc]
    rfl
  have hlength : (Base64.encodeChars bytes).length % 4 = 0 := by
    rw [Base64.length_encodeChars]
    omega
  have hdrop : dropPadding (Base64.encodeChars bytes) = (Base64.sextets bytes).map Base64.digit := by
    refine dropPadding_append (by omega) fun c hc => ?_
    obtain ⟨n, hn, rfl⟩ := mem_map.mp hc
    exact digit_ne_pad (Base64.sextets_lt bytes n hn)
  have hdigits : ((Base64.sextets bytes).map Base64.digit).length % 4 ≠ 1 := by
    rw [length_map, Base64.length_sextets]
    omega
  have hall : (((Base64.sextets bytes).map Base64.digit).all fun c =>
      (Base64.value c).isSome) = true := by
    refine all_eq_true.mpr fun c hc => ?_
    obtain ⟨n, hn, rfl⟩ := mem_map.mp hc
    rw [Base64.value_digit (Base64.sextets_lt bytes n hn)]
    rfl
  rw [atob, Base64.encode, String.toList_ofList, hfilter, if_pos hlength, hdrop, if_neg hdigits,
    if_pos hall, Base64.filterMap_value_digits (Base64.sextets_lt bytes), Base64.ofSextets_sextets]

theorem base64ToBytes_bytesToBase64 : base64ToBytes (bytesToBase64 bytes) = some bytes :=
  atob_encode

end Bluetalk

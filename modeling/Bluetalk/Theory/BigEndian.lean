import Mathlib.Data.List.Induction
import Mathlib.Tactic.Ring

/-!
# Numbers as bytes

`bigEndian w n` is the number `n` in `w` bytes, the most significant one first; what does not fit is
cut off. `ofBigEndian` reads bytes of any length.
-/

open List

namespace Bluetalk

abbrev Bytes := List UInt8

def bigEndian : Nat → Nat → Bytes
  | 0, _ => []
  | w + 1, n => bigEndian w (n / 256) ++ [UInt8.ofNat n]

def ofBigEndian (bytes : Bytes) : Nat := bytes.foldl (fun n b => 256 * n + b.toNat) 0

variable {w v n m : Nat} {bytes rest : Bytes}

@[simp] theorem length_bigEndian : (bigEndian w n).length = w := by
  induction w generalizing n with
  | zero => rfl
  | succ w ih => rw [bigEndian, length_append, ih, length_singleton]

theorem ofBigEndian_concat {b : UInt8} :
    ofBigEndian (bytes ++ [b]) = 256 * ofBigEndian bytes + b.toNat := by
  rw [ofBigEndian, foldl_append]
  rfl

theorem ofBigEndian_bigEndian : ofBigEndian (bigEndian w n) = n % 256 ^ w := by
  induction w generalizing n with
  | zero => exact (Nat.mod_one n).symm
  | succ w ih =>
    have hbyte : (UInt8.ofNat n).toNat = n % 256 := UInt8.toNat_ofNat'
    rw [bigEndian, ofBigEndian_concat, ih, hbyte, pow_succ', Nat.mod_mul, Nat.add_comm]

theorem ofBigEndian_bigEndian_of_lt (h : n < 256 ^ w) : ofBigEndian (bigEndian w n) = n := by
  rw [ofBigEndian_bigEndian, Nat.mod_eq_of_lt h]

theorem bigEndian_inj (hn : n < 256 ^ w) (hm : m < 256 ^ w) (h : bigEndian w n = bigEndian w m) :
    n = m := by
  rw [← ofBigEndian_bigEndian_of_lt hn, h, ofBigEndian_bigEndian_of_lt hm]

theorem ofBigEndian_lt : ofBigEndian bytes < 256 ^ bytes.length := by
  induction bytes using List.reverseRecOn with
  | nil => exact Nat.one_pos
  | append_singleton bytes b ih =>
    have hb : b.toNat < 256 := b.toNat_lt
    rw [ofBigEndian_concat, length_append, length_singleton, pow_succ]
    omega

theorem bigEndian_ofBigEndian : bigEndian bytes.length (ofBigEndian bytes) = bytes := by
  induction bytes using List.reverseRecOn with
  | nil => rfl
  | append_singleton bytes b ih =>
    have hb : b.toNat < 256 := b.toNat_lt
    have hdiv : (256 * ofBigEndian bytes + b.toNat) / 256 = ofBigEndian bytes := by omega
    have hmod : UInt8.ofNat (256 * ofBigEndian bytes + b.toNat) = b := by
      refine UInt8.toNat_inj.mp ?_
      rw [UInt8.toNat_ofNat']
      omega
    rw [length_append, length_singleton, bigEndian, ofBigEndian_concat, hdiv, hmod, ih]

/-- The bytes of the higher part, and then those of the lower part. -/
theorem bigEndian_add : bigEndian (v + w) n = bigEndian v (n / 256 ^ w) ++ bigEndian w n := by
  induction w generalizing n with
  | zero => rw [Nat.add_zero, pow_zero, Nat.div_one, bigEndian, append_nil]
  | succ w ih =>
    rw [← Nat.add_assoc, bigEndian, bigEndian, ih, append_assoc, Nat.div_div_eq_div_mul, pow_succ']

theorem bigEndian_mod : bigEndian w (n % 256 ^ w) = bigEndian w n := by
  have h : bigEndian (bigEndian w n).length (ofBigEndian (bigEndian w n)) = bigEndian w n :=
    bigEndian_ofBigEndian
  rwa [length_bigEndian, ofBigEndian_bigEndian] at h

theorem ofBigEndian_append :
    ofBigEndian (bytes ++ rest) = 256 ^ rest.length * ofBigEndian bytes + ofBigEndian rest := by
  induction rest using List.reverseRecOn with
  | nil =>
    rw [append_nil, length_nil, pow_zero, Nat.one_mul]
    rfl
  | append_singleton rest b ih =>
    rw [← append_assoc, ofBigEndian_concat, ofBigEndian_concat, ih, length_append,
      length_singleton, pow_succ]
    ring

end Bluetalk

/-!
## Base64

Bytes as groups of six bits, and these as characters. `encode` pads to whole groups of four;
`decodeStrict` reads what `encode` writes and nothing else.
-/

namespace Bluetalk.Base64

/-- The groups of six bits that make up the bytes. -/
def sextets : Bytes → List Nat
  | [] => []
  | [a] => [a.toNat / 4, a.toNat % 4 * 16]
  | [a, b] => [a.toNat / 4, a.toNat % 4 * 16 + b.toNat / 16, b.toNat % 16 * 4]
  | a :: b :: c :: rest =>
    a.toNat / 4 :: (a.toNat % 4 * 16 + b.toNat / 16) :: (b.toNat % 16 * 4 + c.toNat / 64) ::
      c.toNat % 64 :: sextets rest

/-- The whole bytes that groups of six bits make up. -/
def ofSextets : List Nat → Bytes
  | w :: x :: y :: z :: rest =>
    UInt8.ofNat (w * 4 + x / 16) :: UInt8.ofNat (x % 16 * 16 + y / 4) ::
      UInt8.ofNat (y % 4 * 64 + z) :: ofSextets rest
  | [w, x, y] => [UInt8.ofNat (w * 4 + x / 16), UInt8.ofNat (x % 16 * 16 + y / 4)]
  | [w, x] => [UInt8.ofNat (w * 4 + x / 16)]
  | [_] | [] => []

def digit (n : Nat) : Char :=
  Char.ofNat (if n < 26 then n + 65 else if n < 52 then n + 71 else if n < 62 then n - 4
    else if n = 62 then 43 else 47)

def value (c : Char) : Option Nat :=
  let n := c.toNat
  if 65 ≤ n && n ≤ 90 then some (n - 65)
  else if 97 ≤ n && n ≤ 122 then some (n - 71)
  else if 48 ≤ n && n ≤ 57 then some (n + 4)
  else if n = 43 then some 62
  else if n = 47 then some 63
  else none

def padding (bytes : Bytes) : List Char := List.replicate ((3 - bytes.length % 3) % 3) '='

def encodeChars (bytes : Bytes) : List Char := (sextets bytes).map digit ++ padding bytes

def encode (bytes : Bytes) : String := String.ofList (encodeChars bytes)

def decodeStrict (text : String) : Option Bytes :=
  let bytes := ofSextets (text.toList.filterMap value)
  if encode bytes = text then some bytes else none

variable {bytes : Bytes} {n : Nat}

theorem sextets_lt : ∀ bytes, ∀ n ∈ sextets bytes, n < 64
  | [], _, h => absurd h not_mem_nil
  | [a], n, h => by
    have ha := a.toNat_lt
    simp only [sextets, mem_cons, not_mem_nil, or_false] at h
    omega
  | [a, b], n, h => by
    have ha := a.toNat_lt
    have hb := b.toNat_lt
    simp only [sextets, mem_cons, not_mem_nil, or_false] at h
    omega
  | a :: b :: c :: rest, n, h => by
    have ha := a.toNat_lt
    have hb := b.toNat_lt
    have hc := c.toNat_lt
    simp only [sextets, mem_cons] at h
    rcases h with h | h | h | h | h
    · omega
    · omega
    · omega
    · omega
    · exact sextets_lt rest n h

/-- Two neighbours hold one byte between them. -/
theorem ofNat_eq_of_toNat {b : UInt8} (h : n = b.toNat) : UInt8.ofNat n = b := by
  rw [h, UInt8.ofNat_toNat]

theorem ofSextets_sextets : ∀ bytes, ofSextets (sextets bytes) = bytes
  | [] => rfl
  | [a] => by
    have ha := a.toNat_lt
    rw [sextets, ofSextets, ofNat_eq_of_toNat]
    omega
  | [a, b] => by
    have ha := a.toNat_lt
    have hb := b.toNat_lt
    rw [sextets, ofSextets, ofNat_eq_of_toNat (b := a), ofNat_eq_of_toNat (b := b)]
    · omega
    · omega
  | a :: b :: c :: rest => by
    have ha := a.toNat_lt
    have hb := b.toNat_lt
    have hc := c.toNat_lt
    rw [sextets, ofSextets, ofNat_eq_of_toNat (b := a), ofNat_eq_of_toNat (b := b),
      ofNat_eq_of_toNat (b := c), ofSextets_sextets rest]
    · omega
    · omega
    · omega

theorem value_digit (h : n < 64) : value (digit n) = some n := by
  have hall : ∀ n : Fin 64, value (digit n) = some n.val := by decide
  exact hall ⟨n, h⟩

theorem filterMap_value_digits {ns : List Nat} (h : ∀ n ∈ ns, n < 64) :
    (ns.map digit).filterMap value = ns := by
  induction ns with
  | nil => rfl
  | cons n ns ih =>
    rw [forall_mem_cons] at h
    rw [map_cons, filterMap_cons, value_digit h.1, ih h.2]

theorem length_sextets : ∀ bytes, (sextets bytes).length = (bytes.length * 4 + 2) / 3
  | [] | [_] | [_, _] => by simp [sextets]
  | _ :: _ :: _ :: rest => by
    rw [sextets, length_cons, length_cons, length_cons, length_cons,
      length_sextets rest, length_cons, length_cons, length_cons]
    omega

theorem length_encodeChars : (encodeChars bytes).length = (bytes.length + 2) / 3 * 4 := by
  rw [encodeChars, length_append, length_map, length_sextets, padding, length_replicate]
  omega

theorem encodeChars_cases {c : Char} (h : c ∈ encodeChars bytes) :
    c = '=' ∨ ∃ n < 64, c = digit n := by
  rcases mem_append.mp h with h | h
  · obtain ⟨n, hn, rfl⟩ := mem_map.mp h
    exact .inr ⟨n, sextets_lt bytes n hn, rfl⟩
  · exact .inl (eq_of_mem_replicate h)

end Bluetalk.Base64

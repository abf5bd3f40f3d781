import Bluetalk.Js.CodeUnits

/-!
# Texts in JSON

`JSON.stringify` writes a surrogate that stands alone as an escape. `JSON.parse` makes the surrogate
of it again, so that every text comes back; `serde_json` reads characters, and refuses it.
-/

open List

namespace Bluetalk

/-- What stands between the quotes is characters, written as they are or by a short escape, and
units in four hexadecimal digits. -/
inductive JsonPiece
  | char (c : Char)
  | unit (n : Nat)

inductive JsonLexer
  | plain
  | escape
  | hex (digits value : Nat)
  | closed

def hexDigitValue (c : Char) : Option Nat :=
  let n := c.toNat
  if 48 ≤ n ∧ n ≤ 57 then some (n - 48)
  else if 97 ≤ n ∧ n ≤ 102 then some (n - 87)
  else if 65 ≤ n ∧ n ≤ 70 then some (n - 55)
  else none

def shortEscape (c : Char) : Option Char :=
  match c with
  | '"' => some '"'
  | '\\' => some '\\'
  | '/' => some '/'
  | 'b' => some '\x08'
  | 'f' => some '\x0c'
  | 'n' => some '\n'
  | 'r' => some '\r'
  | 't' => some '\t'
  | _ => none

namespace JsonLexer

def step : JsonLexer → Char → Option (JsonLexer × List JsonPiece)
  | .plain, c =>
    if c = '"' then some (.closed, [])
    else if c = '\\' then some (.escape, [])
    else if c.val < 0x20 then none
    else some (.plain, [.char c])
  | .escape, c =>
    if c = 'u' then some (.hex 0 0, []) else (shortEscape c).map fun x => (.plain, [.char x])
  | .hex digits value, c =>
    (hexDigitValue c).map fun d =>
      if digits = 3 then (.plain, [.unit (value * 16 + d)])
      else (.hex (digits + 1) (value * 16 + d), [])
  | .closed, _ => none

/-- The pieces of what follows the opening quote, up to the closing one. -/
def pieces : JsonLexer → List Char → Option (List JsonPiece)
  | .closed, [] => some []
  | _, [] => none
  | state, c :: rest =>
    match state.step c with
    | some (state', found) => (pieces state' rest).map (found ++ ·)
    | none => none

end JsonLexer

def jsonPieces (literal : List Char) : Option (List JsonPiece) :=
  match literal with
  | c :: rest => if c = '"' then JsonLexer.pieces .plain rest else none
  | [] => none

namespace JsonPiece

def units : JsonPiece → JsString
  | char c => (CodePoint.scalar c).units
  | unit n => [UInt16.ofNat n]

end JsonPiece

/-- `JSON.parse` of a literal -/
def jsonParseText (literal : List Char) : Option JsString :=
  (jsonPieces literal).map (·.flatMap JsonPiece.units)

/-- The characters that `serde_json` makes of the pieces. -/
def serdeChars : List JsonPiece → Option (List Char)
  | [] => some []
  | .char c :: rest => (serdeChars rest).map (c :: ·)
  | .unit n :: rest =>
    if 0xDC00 ≤ n ∧ n ≤ 0xDFFF then none
    else if n < 0xD800 ∨ 0xDBFF < n then (serdeChars rest).map (Char.ofNat n :: ·)
    else
      match rest with
      | .unit n' :: rest =>
        if n' < 0xDC00 ∨ 0xDFFF < n' then none
        else (serdeChars rest).map
          (Char.ofNat (0x10000 + (n - 0xD800) * 0x400 + (n' - 0xDC00)) :: ·)
      | _ => none

/-- `serde_json` of a literal -/
def serdeText (literal : List Char) : Option String :=
  ((jsonPieces literal).bind serdeChars).map String.ofList

namespace CodePoint

/-- `UnicodeEscape` -/
def escapeUnit (u : UInt16) : List Char :=
  ['\\', 'u', hexDigit (u.toNat / 4096), hexDigit (u.toNat / 256 % 16),
    hexDigit (u.toNat / 16 % 16), hexDigit (u.toNat % 16)]

def quote : CodePoint → List Char
  | scalar c => escapeChar c
  | lone u => escapeUnit u

/-- What a code point is read as. -/
def piece : CodePoint → JsonPiece
  | scalar c =>
    if c.val < 0x20 ∧ c ∉ ['\n', '\r', '\t', '\x08', '\x0c'] then .unit c.toNat else .char c
  | lone u => .unit u.toNat

end CodePoint

/-- `JSON.stringify(s)` -/
def JsString.stringify (s : JsString) : List Char :=
  '"' :: s.codePoints.flatMap CodePoint.quote ++ ['"']

variable {s : JsString} {c : Char} {u : UInt16} {rest : List Char} {points : List CodePoint}
  {n : Nat} {pieces : List JsonPiece} {p : CodePoint}

theorem hexDigitValue_hexDigit (h : n < 16) : hexDigitValue (hexDigit n) = some n := by
  revert n
  decide

theorem pieces_hex4 (rest : List Char) {a b c d : Nat} (ha : a < 16) (hb : b < 16) (hc : c < 16) (hd : d < 16) :
    JsonLexer.pieces .plain
        (['\\', 'u', hexDigit a, hexDigit b, hexDigit c, hexDigit d] ++ rest) =
      (JsonLexer.pieces .plain rest).map (.unit (((a * 16 + b) * 16 + c) * 16 + d) :: ·) := by
  simp [JsonLexer.pieces, JsonLexer.step, hexDigitValue_hexDigit, ha, hb, hc, hd, Function.comp_def]

theorem pieces_lone :
    JsonLexer.pieces .plain ((CodePoint.lone u).quote ++ rest) =
      (JsonLexer.pieces .plain rest).map ((CodePoint.lone u).piece :: ·) := by
  have hlt : u.toNat < 65536 := u.toNat_lt
  have hvalue : (((u.toNat / 4096) * 16 + u.toNat / 256 % 16) * 16 + u.toNat / 16 % 16) * 16 +
      u.toNat % 16 = u.toNat := by omega
  rw [CodePoint.quote, CodePoint.escapeUnit, pieces_hex4 _ (by omega) (by omega) (by omega)
    (by omega), hvalue]
  rfl

theorem pieces_short {e : Char} (he : e ≠ 'u') (hshort : shortEscape e = some c) :
    JsonLexer.pieces .plain (['\\', e] ++ rest) =
      (JsonLexer.pieces .plain rest).map (.char c :: ·) := by
  simp [JsonLexer.pieces, JsonLexer.step, he, hshort, Function.comp_def]

theorem pieces_plain (hquote : c ≠ '"') (hslash : c ≠ '\\') (hval : ¬ c.val < 0x20) :
    JsonLexer.pieces .plain ([c] ++ rest) =
      (JsonLexer.pieces .plain rest).map (.char c :: ·) := by
  simp only [singleton_append, JsonLexer.pieces, JsonLexer.step, if_neg hquote, if_neg hslash,
    if_neg hval]

theorem pieces_scalar :
    JsonLexer.pieces .plain ((CodePoint.scalar c).quote ++ rest) =
      (JsonLexer.pieces .plain rest).map ((CodePoint.scalar c).piece :: ·) := by
  change JsonLexer.pieces .plain (escapeChar c ++ rest) = _
  unfold escapeChar
  split
  · exact pieces_short (e := '"') (by decide) rfl
  · exact pieces_short (e := '\\') (by decide) rfl
  · exact pieces_short (e := 'n') (by decide) rfl
  · exact pieces_short (e := 'r') (by decide) rfl
  · exact pieces_short (e := 't') (by decide) rfl
  · exact pieces_short (e := 'b') (by decide) rfl
  · exact pieces_short (e := 'f') (by decide) rfl
  next hquote hslash hn hr ht hb hf =>
  split
  next hval =>
    have hlt : c.toNat < 32 := by simpa [UInt32.lt_iff_toNat_lt] using hval
    have hvalue : ((0 * 16 + 0) * 16 + c.toNat / 16) * 16 + c.toNat % 16 = c.toNat := by omega
    have hpiece : (CodePoint.scalar c).piece = .unit c.toNat := if_pos ⟨hval, by simp_all⟩
    have hhex := pieces_hex4 rest (a := 0) (b := 0) (c := c.toNat / 16)
      (d := c.toNat % 16) (by decide) (by decide) (by omega) (by omega)
    rw [hvalue] at hhex
    rw [hpiece, ← hhex]
    rfl
  next hval =>
  have hpiece : (CodePoint.scalar c).piece = .char c := if_neg fun h => hval h.1
  rw [hpiece]
  exact pieces_plain hquote hslash hval

theorem pieces_points : JsonLexer.pieces .plain (points.flatMap CodePoint.quote ++ ['"']) =
    some (points.map CodePoint.piece) := by
  induction points with
  | nil => rfl
  | cons point points ih =>
    rw [flatMap_cons, append_assoc, map_cons]
    cases point with
    | scalar c => rw [pieces_scalar, ih]; rfl
    | lone u => rw [pieces_lone, ih]; rfl

theorem jsonPieces_stringify : jsonPieces s.stringify = some (s.codePoints.map CodePoint.piece) :=
  pieces_points

theorem units_piece {point : CodePoint} : point.piece.units = point.units := by
  cases point with
  | lone u => rw [CodePoint.piece, JsonPiece.units, UInt16.ofNat_toNat]; rfl
  | scalar c =>
    rw [CodePoint.piece]
    split
    next h =>
      have hlt : c.toNat < 32 := by simpa [UInt32.lt_iff_toNat_lt] using h.1
      rw [JsonPiece.units, CodePoint.units, utf16Units, if_pos (by omega)]
      rfl
    · rfl

theorem jsonParseText_stringify (s : JsString) : jsonParseText s.stringify = some s := by
  rw [jsonParseText, jsonPieces_stringify, Option.map_some, flatMap_map]
  simp only [units_piece]
  rw [flatMap_units_codePoints]

theorem serdeChars_unit (h : n < 0xD800) :
    serdeChars (.unit n :: pieces) = (serdeChars pieces).map (Char.ofNat n :: ·) := by
  rw [serdeChars.eq_def]
  dsimp only
  rw [if_neg (by omega), if_pos (.inl h)]

theorem serdeChars_scalar :
    serdeChars ((CodePoint.scalar c).piece :: pieces) = (serdeChars pieces).map (c :: ·) := by
  rw [CodePoint.piece]
  split
  next h =>
    have hlt : c.toNat < 32 := by simpa [UInt32.lt_iff_toNat_lt] using h.1
    rw [serdeChars_unit (by omega), Char.ofNat_toNat]
  · rfl

theorem serdeChars_low (h : isLowSurrogate u = true) :
    serdeChars (.unit u.toNat :: pieces) = none := by
  rw [isLowSurrogate, Bool.and_eq_true, decide_eq_true_eq, decide_eq_true_eq] at h
  rw [serdeChars.eq_def]
  dsimp only
  rw [if_pos h]

theorem serdeChars_high (h : isHighSurrogate u = true)
    (hnext : ∀ n rest, pieces = .unit n :: rest → n < 0xDC00 ∨ 0xDFFF < n) :
    serdeChars (.unit u.toNat :: pieces) = none := by
  rw [isHighSurrogate, Bool.and_eq_true, decide_eq_true_eq, decide_eq_true_eq] at h
  rw [serdeChars.eq_def]
  dsimp only
  rw [if_neg (by omega), if_neg (by omega)]
  split
  next n rest => rw [if_pos (hnext n rest rfl)]
  · rfl

theorem head_codePoints {ps : List CodePoint} (h : JsString.codePoints (u :: s) = p :: ps) : p.isScalar = true ∨ p = .lone u := by
  have hsingle : (singlePoint u).isScalar = true ∨ singlePoint u = .lone u := by
    rw [singlePoint]
    split
    · exact .inr rfl
    · exact .inl rfl
  cases s with
  | nil =>
    cases h
    exact hsingle
  | cons v s =>
    rw [JsString.codePoints] at h
    split at h
    · cases h
      exact .inl rfl
    · cases h
      exact hsingle

theorem unit_of_piece (h : p.piece = .unit n)
    (hp : p.isScalar = true ∨ p = .lone u) : n < 32 ∨ n = u.toNat := by
  rcases hp with hscalar | rfl
  · cases p with
    | lone v => cases hscalar
    | scalar c =>
      rw [CodePoint.piece] at h
      split at h
      next hc =>
        cases h
        exact .inl (by simpa [UInt32.lt_iff_toNat_lt] using hc.1)
      · cases h
  · cases h
    exact .inr rfl

theorem serdeChars_codePoints (s : JsString) : serdeChars (s.codePoints.map CodePoint.piece) =
    if s.isWellFormed then some (s.codePoints.map CodePoint.replaced) else none := by
  induction s using JsString.codePoints.induct with
  | case1 => rfl
  | case2 u =>
    rw [JsString.isWellFormed, JsString.codePoints, singlePoint]
    split
    next hsurrogate =>
      rw [Bool.or_eq_true] at hsurrogate
      rcases hsurrogate with hhigh | hlow
      · exact serdeChars_high hhigh fun n rest h => by cases h
      · exact serdeChars_low hlow
    · exact serdeChars_scalar
  | case3 u v rest h ih =>
    rw [JsString.isWellFormed, JsString.codePoints, if_pos h, map_cons, serdeChars_scalar, ih]
    exact apply_ite ..
  | case4 u v rest h ih =>
    rw [JsString.isWellFormed, JsString.codePoints, if_neg h, map_cons, all_cons, singlePoint]
    split
    next hsurrogate =>
      rw [Bool.or_eq_true] at hsurrogate
      rcases hsurrogate with hhigh | hlow
      · refine serdeChars_high hhigh fun n pieces hpieces => ?_
        obtain ⟨p, ps, hpoints, hp, -⟩ := map_eq_cons_iff.mp hpieces
        have hv : isLowSurrogate v = false := by simpa [hhigh] using h
        simp only [isLowSurrogate, Bool.and_eq_false_iff, decide_eq_false_iff_not] at hv
        rcases unit_of_piece hp (head_codePoints hpoints) with hlt | rfl
        · omega
        · omega
      · exact serdeChars_low hlow
    · rw [serdeChars_scalar, ih]
      exact apply_ite ..

theorem serdeText_stringify (s : JsString) :
    serdeText s.stringify = if s.isWellFormed then some s.toText else none := by
  rw [serdeText, jsonPieces_stringify, Option.bind_some, serdeChars_codePoints]
  exact apply_ite ..

end Bluetalk

import Mathlib.Data.List.Basic
import Mathlib.Algebra.Ring.Nat

/-! Python's `str` and `bytes`, as far as `json` and `urllib` need them: the encodings that JSON
comes in, and the quoting of a query. -/

namespace Python

abbrev Bytes := List UInt8

/-- A code point: a character, or the surrogate `U+D800 + n`. -/
inductive CodePoint
  | char (c : Char)
  | surrogate (n : Fin 0x800)
  deriving DecidableEq

/-- A `str`, which may hold surrogates. -/
abbrev Text := List CodePoint

def CodePoint.ofNat (n : ℕ) : CodePoint :=
  if h : 0xD800 ≤ n ∧ n < 0xE000 then .surrogate ⟨n - 0xD800, by omega⟩ else .char (Char.ofNat n)

def Text.ofString (s : String) : Text := s.toList.map .char

/-- `str.encode`, where a Lean string stands for its UTF-8; `none` is a `UnicodeEncodeError`. -/
def Text.encode : Text → Option String
  | [] => some ""
  | .char c :: text => (Text.encode text).map fun s => String.ofList (c :: s.toList)
  | .surrogate _ :: _ => none

/-- `str.lower`, which is compared with ASCII words only: no other character becomes a letter
of "true". -/
def Text.lower (text : Text) : Text :=
  text.map fun
    | .char c => .char c.toLower
    | .surrogate n => .surrogate n

/-! `bytes.decode(encoding, 'surrogatepass')`; `none` is a `UnicodeDecodeError`. -/

def isContinuation (b : UInt8) : Bool := decide (0x80 ≤ b.toNat ∧ b.toNat < 0xC0)

/-- A surrogate may stand in three bytes. What is written in more bytes than it needs is no code
point. -/
def decodeUtf8 : Bytes → Option Text
  | [] => some []
  | a :: as =>
    if a.toNat < 0x80 then (decodeUtf8 as).map (CodePoint.ofNat a.toNat :: ·)
    else match as with
      | [] => none
      | b :: bs =>
        if isContinuation b = false then none
        else if 0xC2 ≤ a.toNat ∧ a.toNat < 0xE0 then
          (decodeUtf8 bs).map (CodePoint.ofNat (a.toNat % 32 * 64 + b.toNat % 64) :: ·)
        else match bs with
          | [] => none
          | c :: cs =>
            if isContinuation c = false then none
            else
              let n := (a.toNat % 16 * 64 + b.toNat % 64) * 64 + c.toNat % 64
              if 0xE0 ≤ a.toNat ∧ a.toNat < 0xF0 ∧ 0x800 ≤ n then
                (decodeUtf8 cs).map (CodePoint.ofNat n :: ·)
              else match cs with
                | [] => none
                | d :: ds =>
                  let n := ((a.toNat % 8 * 64 + b.toNat % 64) * 64 + c.toNat % 64) * 64 + d.toNat % 64
                  if isContinuation d ∧ 0xF0 ≤ a.toNat ∧ a.toNat < 0xF5 ∧ 0x10000 ≤ n ∧ n < 0x110000 then
                    (decodeUtf8 ds).map (CodePoint.ofNat n :: ·)
                  else none

def isHighSurrogate (n : ℕ) : Bool := decide (0xD800 ≤ n ∧ n < 0xDC00)

def isLowSurrogate (n : ℕ) : Bool := decide (0xDC00 ≤ n ∧ n < 0xE000)

def joinSurrogates (high low : ℕ) : CodePoint :=
  CodePoint.ofNat (0x10000 + (high - 0xD800) * 0x400 + (low - 0xDC00))

/-- The code units of two bytes each. -/
def codeUnits (bigEndian : Bool) : Bytes → Option (List ℕ)
  | [] => some []
  | [_] => none
  | a :: b :: bytes => (codeUnits bigEndian bytes).map
    ((if bigEndian then a.toNat * 256 + b.toNat else b.toNat * 256 + a.toNat) :: ·)

def joinUnits : List ℕ → Text
  | [] => []
  | [u] => [CodePoint.ofNat u]
  | u :: v :: units =>
    if isHighSurrogate u ∧ isLowSurrogate v then joinSurrogates u v :: joinUnits units
    else CodePoint.ofNat u :: joinUnits (v :: units)

def decodeUtf16 (bigEndian : Bool) (bytes : Bytes) : Option Text :=
  (codeUnits bigEndian bytes).map joinUnits

def decodeUtf32 (bigEndian : Bool) : Bytes → Option Text
  | [] => some []
  | a :: b :: c :: d :: bytes =>
    let n := if bigEndian then ((a.toNat * 256 + b.toNat) * 256 + c.toNat) * 256 + d.toNat
      else ((d.toNat * 256 + c.toNat) * 256 + b.toNat) * 256 + a.toNat
    if n < 0x110000 then (decodeUtf32 bigEndian bytes).map (CodePoint.ofNat n :: ·) else none
  | _ => none

inductive Encoding
  | utf8 | utf8Sig | utf16 | utf16BE | utf16LE | utf32 | utf32BE | utf32LE
  deriving DecidableEq

/-- The last three look for a byte order mark and leave it out. -/
def Bytes.decode (bytes : Bytes) : Encoding → Option Text
  | .utf8 => decodeUtf8 bytes
  | .utf16BE => decodeUtf16 true bytes
  | .utf16LE => decodeUtf16 false bytes
  | .utf32BE => decodeUtf32 true bytes
  | .utf32LE => decodeUtf32 false bytes
  | .utf8Sig => decodeUtf8 (bytes.drop 3)
  | .utf16 => decodeUtf16 (decide (bytes.head? = some 0xFE)) (bytes.drop 2)
  | .utf32 => decodeUtf32 (decide (bytes.head? = some 0)) (bytes.drop 4)

/-! `urllib.parse`. -/

def hexDigit (n : ℕ) : Char := ("0123456789ABCDEF".toList)[n]?.getD '0'

/-- One byte in `quote_plus`, where letters, digits and `_.-~` are safe. -/
def quoteByte (b : UInt8) : List Char :=
  let c := Char.ofNat b.toNat
  if c.toNat < 128 ∧ (c.isAlphanum ∨ c ∈ ['_', '.', '-', '~']) then [c]
  else if c = ' ' then ['+']
  else ['%', hexDigit (b.toNat / 16), hexDigit (b.toNat % 16)]

def quotePlus (s : String) : String :=
  String.ofList ((s.toList.flatMap String.utf8EncodeChar).flatMap quoteByte)

def urlencode (query : List (String × String)) : String :=
  "&".intercalate (query.map fun item => quotePlus item.1 ++ "=" ++ quotePlus item.2)

example : urlencode [("code", "4/x y"), ("q", "한")] = "code=4%2Fx+y&q=%ED%95%9C" := by
  decide +kernel

/-! A text is encoded as long as it holds no surrogate. -/

theorem encode_ofString (s : String) : (Text.ofString s).encode = some s := by
  have hchars : ∀ cs : List Char, Text.encode (cs.map .char) = some (String.ofList cs) := by
    intro cs
    induction cs with
    | nil => rfl
    | cons c cs ih => simp [Text.encode, ih]
  rw [Text.ofString, hchars, String.ofList_toList]

theorem encode_eq_none {text : Text} : text.encode = none ↔ ∃ n, .surrogate n ∈ text := by
  induction text with
  | nil => simp [Text.encode]
  | cons c text ih => cases c <;> simp [Text.encode, ih]

end Python

import Chamneul.Python.Text

/-! `json.loads` on `bytes`, which finds out their encoding, decodes them and scans the text.
The scanner is the recursive one; it raises at the first place that is wrong, and its containers
count towards the recursion limit. -/

namespace Python

/-- A `float`: `mantissa * 10 ^ exponent`, rounded. -/
inductive Double
  | nan
  | infinity (negative : Bool)
  | decimal (negative : Bool) (mantissa : ℕ) (exponent : ℤ)

/-- Half of the least positive double is `2 ^ -1075`, and is rounded to zero. -/
def Double.isZero : Double → Bool
  | .decimal _ mantissa exponent =>
    if 0 ≤ exponent then decide (mantissa = 0)
    else decide (mantissa * 2 ^ 1075 ≤ 10 ^ exponent.natAbs)
  | _ => false

/-- What JSON is read as. The items of an object are those of a `dict`. -/
inductive Value
  | null
  | bool (b : Bool)
  | int (n : ℤ)
  | float (x : Double)
  | string (s : Text)
  | array (items : List Value)
  | object (items : List (Text × Value))

namespace Value

/-- `bool(value)`. -/
def truthy : Value → Bool
  | .null => false
  | .bool b => b
  | .int n => decide (n ≠ 0)
  | .float x => !x.isZero
  | .string s => !s.isEmpty
  | .array items => !items.isEmpty
  | .object items => !items.isEmpty

/-- `value == text`. -/
def isText (value : Value) (text : String) : Bool :=
  match value with
  | .string s => decide (s = Text.ofString text)
  | _ => false

/-- `items[key] = value`: a key that is there keeps its place. -/
def setItem (key : Text) (value : Value) : List (Text × Value) → List (Text × Value)
  | [] => [(key, value)]
  | item :: items => if item.1 = key then (key, value) :: items else item :: setItem key value items

/-- `items.get(key)`. -/
def getItem (items : List (Text × Value)) (key : String) : Value :=
  (items.lookup (Text.ofString key)).getD .null

end Value

/-- `repr` of numbers and containers. It holds no surrogate, and does not read "true". -/
structure Printer where
  repr : Value → String
  lower_repr : ∀ value, (Text.ofString (repr value)).lower ≠ Text.ofString "true"

/-- `str(value)`. -/
def Printer.str (P : Printer) : Value → Text
  | .null => Text.ofString "None"
  | .bool true => Text.ofString "True"
  | .bool false => Text.ofString "False"
  | .string s => s
  | value => Text.ofString (P.repr value)

/-! The exceptions. `int` raises a `ValueError` for more than 4300 digits. -/

inductive JsonError
  | unicodeDecodeError | jsonDecodeError | recursionError | valueError
  deriving DecidableEq

abbrev Scan (α : Type) := Except JsonError (α × Text)

def isSpace : CodePoint → Bool
  | .char c => decide (c ∈ [' ', '\t', '\n', '\r'])
  | .surrogate _ => false

def skipSpace (text : Text) : Text := text.dropWhile isSpace

/-! `scanstring`. -/

def isControl : CodePoint → Bool
  | .char c => decide (c.toNat < 0x20)
  | .surrogate _ => false

def unescape (c : Char) : Option Char :=
  [('"', '"'), ('\\', '\\'), ('/', '/'), ('b', '\x08'), ('f', '\x0c'), ('n', '\n'), ('r', '\r'),
    ('t', '\t')].lookup c

def hexValue : CodePoint → Option ℕ
  | .char c =>
    if '0' ≤ c ∧ c ≤ '9' then some (c.toNat - '0'.toNat)
    else if 'a' ≤ c ∧ c ≤ 'f' then some (c.toNat - 'a'.toNat + 10)
    else if 'A' ≤ c ∧ c ≤ 'F' then some (c.toNat - 'A'.toNat + 10)
    else none
  | .surrogate _ => none

def hex4 (a b c d : CodePoint) : Option ℕ := do
  pure ((((← hexValue a) * 16 + (← hexValue b)) * 16 + (← hexValue c)) * 16 + (← hexValue d))

/-- A piece of a string: a character, or a code unit that is escaped. -/
inductive Piece
  | plain (c : CodePoint)
  | escaped (unit : ℕ)

/-- Two escaped surrogates that make a pair are one character. -/
def joinPieces : List Piece → Text
  | [] => []
  | .plain c :: pieces => c :: joinPieces pieces
  | .escaped u :: .escaped v :: pieces =>
    if isHighSurrogate u ∧ isLowSurrogate v then joinSurrogates u v :: joinPieces pieces
    else CodePoint.ofNat u :: joinPieces (.escaped v :: pieces)
  | .escaped u :: pieces => CodePoint.ofNat u :: joinPieces pieces

def push (piece : Piece) (scanned : Scan (List Piece)) : Scan (List Piece) :=
  scanned.map fun found => (piece :: found.1, found.2)

/-- Up to the closing quote. -/
def scanPieces : Text → Scan (List Piece)
  | [] => .error .jsonDecodeError
  | .char '"' :: rest => .ok ([], rest)
  | .char '\\' :: .char 'u' :: a :: b :: c :: d :: rest =>
    match hex4 a b c d with
    | none => .error .jsonDecodeError
    | some unit => push (.escaped unit) (scanPieces rest)
  | .char '\\' :: .char c :: rest =>
    match unescape c with
    | none => .error .jsonDecodeError
    | some c => push (.plain (.char c)) (scanPieces rest)
  | .char '\\' :: _ => .error .jsonDecodeError
  | c :: rest => if isControl c then .error .jsonDecodeError else push (.plain c) (scanPieces rest)

def scanString (text : Text) : Scan Text :=
  (scanPieces text).map fun found => (joinPieces found.1, found.2)

/-! `match_number`. -/

def isDigit : CodePoint → Bool
  | .char c => c.isDigit
  | .surrogate _ => false

def digitValue : CodePoint → ℕ
  | .char c => c.toNat - '0'.toNat
  | .surrogate _ => 0

def numeral (digits : Text) : ℕ := digits.foldl (fun n c => 10 * n + digitValue c) 0

def signed (negative : Bool) (n : ℕ) : ℤ := if negative then -n else n

def scanDigits (text : Text) : Text × Text := (text.takeWhile isDigit, text.dropWhile isDigit)

/-- No digit follows a leading zero. -/
def scanWhole : Text → Text × Text
  | .char '0' :: rest => ([.char '0'], rest)
  | text => scanDigits text

def scanFraction : Text → Text × Text
  | .char '.' :: rest => if (scanDigits rest).1 = [] then ([], .char '.' :: rest) else scanDigits rest
  | text => ([], text)

def scanSign : Text → Bool × Text
  | .char '-' :: rest => (true, rest)
  | .char '+' :: rest => (false, rest)
  | text => (false, text)

/-- An `e` with no digits behind it is no part of the number. -/
def scanExponent (text : Text) : Option ℤ × Text :=
  match text with
  | .char c :: rest =>
    if c = 'e' ∨ c = 'E' then
      let (negative, rest) := scanSign rest
      let (digits, rest) := scanDigits rest
      if digits = [] then (none, text) else (some (signed negative (numeral digits)), rest)
    else (none, text)
  | _ => (none, text)

def maxStrDigits : ℕ := 4300

def scanUnsigned (negative : Bool) (text : Text) : Scan Value :=
  let (whole, rest) := scanWhole text
  if whole = [] then .error .jsonDecodeError
  else
    let (fraction, rest) := scanFraction rest
    let (exponent, rest) := scanExponent rest
    if fraction = [] ∧ exponent = none then
      if maxStrDigits < whole.length then .error .valueError
      else .ok (.int (signed negative (numeral whole)), rest)
    else .ok (.float (.decimal negative (numeral (whole ++ fraction))
      (exponent.getD 0 - fraction.length)), rest)

def scanNumber : Text → Scan Value
  | .char '-' :: rest => scanUnsigned true rest
  | text => scanUnsigned false text

/-! `scan_once`. -/

def constants : List (String × Value) :=
  [("null", .null), ("true", .bool true), ("false", .bool false), ("NaN", .float .nan),
    ("Infinity", .float (.infinity false)), ("-Infinity", .float (.infinity true))]

/-- What is no string and no container. -/
def scanAtom (text : Text) : Scan Value :=
  match constants.find? fun constant => (Text.ofString constant.1).isPrefixOf text with
  | some (word, value) => .ok (value, text.drop word.length)
  | none => scanNumber text

mutual

/-- `depth` more containers may be opened. `fuel` is for Lean to see an end: twice the length of
the text and one more are enough. -/
def scanOnce : (fuel depth : ℕ) → Text → Scan Value
  | 0, _, _ => .error .jsonDecodeError
  | fuel + 1, depth, text =>
    match text with
    | .char '"' :: rest => (scanString rest).map fun found => (.string found.1, found.2)
    | .char '{' :: rest =>
      match depth with
      | 0 => .error .recursionError
      | depth + 1 =>
        match skipSpace rest with
        | .char '}' :: rest => .ok (.object [], rest)
        | rest => scanMembers fuel depth [] rest
    | .char '[' :: rest =>
      match depth with
      | 0 => .error .recursionError
      | depth + 1 =>
        match skipSpace rest with
        | .char ']' :: rest => .ok (.array [], rest)
        | rest => scanItems fuel depth [] rest
    | text => scanAtom text

/-- `_parse_array`, behind the bracket or a comma. -/
def scanItems : (fuel depth : ℕ) → List Value → Text → Scan Value
  | 0, _, _, _ => .error .jsonDecodeError
  | fuel + 1, depth, items, text =>
    match scanOnce fuel depth text with
    | .error e => .error e
    | .ok (value, rest) =>
      match skipSpace rest with
      | .char ']' :: rest => .ok (.array (items ++ [value]), rest)
      | .char ',' :: rest => scanItems fuel depth (items ++ [value]) (skipSpace rest)
      | _ => .error .jsonDecodeError

/-- `_parse_object`, behind the brace or a comma. -/
def scanMembers : (fuel depth : ℕ) → List (Text × Value) → Text → Scan Value
  | 0, _, _, _ => .error .jsonDecodeError
  | fuel + 1, depth, items, text =>
    match text with
    | .char '"' :: rest =>
      match scanString rest with
      | .error e => .error e
      | .ok (key, rest) =>
        match skipSpace rest with
        | .char ':' :: rest =>
          match scanOnce fuel depth (skipSpace rest) with
          | .error e => .error e
          | .ok (value, rest) =>
            match skipSpace rest with
            | .char '}' :: rest => .ok (.object (Value.setItem key value items), rest)
            | .char ',' :: rest =>
              scanMembers fuel depth (Value.setItem key value items) (skipSpace rest)
            | _ => .error .jsonDecodeError
        | _ => .error .jsonDecodeError
    | _ => .error .jsonDecodeError

end

/-- `JSONDecoder.decode`. -/
def decodeText (recursionLimit : ℕ) (text : Text) : Except JsonError Value :=
  match scanOnce (2 * (skipSpace text).length + 1) recursionLimit (skipSpace text) with
  | .error e => .error e
  | .ok (value, rest) => if skipSpace rest = [] then .ok value else .error .jsonDecodeError

/-- `json.detect_encoding`. -/
def detectEncoding (bytes : Bytes) : Encoding :=
  if [0, 0, 0xFE, 0xFF].isPrefixOf bytes ∨ [0xFF, 0xFE, 0, 0].isPrefixOf bytes then .utf32
  else if [0xFE, 0xFF].isPrefixOf bytes ∨ [0xFF, 0xFE].isPrefixOf bytes then .utf16
  else if [0xEF, 0xBB, 0xBF].isPrefixOf bytes then .utf8Sig
  else match bytes with
    | a :: b :: c :: d :: _ =>
      if a = 0 then (if b = 0 then .utf32BE else .utf16BE)
      else if b = 0 then (if c = 0 ∧ d = 0 then .utf32LE else .utf16LE)
      else .utf8
    | [a, b] => if a = 0 then .utf16BE else if b = 0 then .utf16LE else .utf8
    | _ => .utf8

/-- `json.loads`, where `recursionLimit` containers may be open. -/
def loads (recursionLimit : ℕ) (bytes : Bytes) : Except JsonError Value :=
  match bytes.decode (detectEncoding bytes) with
  | none => .error .unicodeDecodeError
  | some text => decodeText recursionLimit text

end Python

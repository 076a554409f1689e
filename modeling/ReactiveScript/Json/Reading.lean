import ReactiveScript.Json.Basic
import ReactiveScript.Decimal.Arithmetic

/-!
# Reading JSON text

Reading accepts the grammar of JSON and nothing more. Arrays and objects nest up to 127 levels
deep, surrogate escapes have to come in pairs, and numbers beyond the range of decimals are refused.
A key that an object repeats keeps its first place and its last value.

A number with a fraction or an exponent is taken as a whole number of at most 64 bits times a power
of ten, and is computed from the two by one multiplication or division of decimals.
-/

namespace ReactiveScript.Json

/-- A value and the characters that follow it. -/
abbrev Reader (α : Type) := List Char → Option (α × List Char)

def isBlank (c : Char) : Bool := c == ' ' || c == '\n' || c == '\t' || c == '\r'

def skipBlanks (cs : List Char) : List Char := cs.dropWhile isBlank

def hexValue? (c : Char) : Option Nat :=
  if c.isDigit then some (c.toNat - 48)
  else if 'a' ≤ c ∧ c ≤ 'f' then some (c.toNat - 87)
  else if 'A' ≤ c ∧ c ≤ 'F' then some (c.toNat - 55)
  else none

/-- The number that four digits of base sixteen denote. -/
def hexValue4? (a b c d : Char) : Option Nat := do
  pure (4096 * (← hexValue? a) + 256 * (← hexValue? b) + 16 * (← hexValue? c) + (← hexValue? d))

/-- The character that a letter stands for after a backslash. -/
def unescape? : Char → Option Char
  | '"' => some '"'
  | '\\' => some '\\'
  | '/' => some '/'
  | 'b' => some '\x08'
  | 'f' => some '\x0c'
  | 'n' => some '\n'
  | 'r' => some '\r'
  | 't' => some '\t'
  | _ => none

def isHighSurrogate (n : Nat) : Bool := 0xD800 ≤ n && n < 0xDC00

def isLowSurrogate (n : Nat) : Bool := 0xDC00 ≤ n && n < 0xE000

/-- The character that two surrogates encode. -/
def ofSurrogates (high low : Nat) : Char :=
  Char.ofNat (0x10000 + 0x400 * (high - 0xD800) + (low - 0xDC00))

/-- Reads a text up to its closing quote. -/
def readQuoted : Reader (List Char)
  | [] => none
  | '"' :: rest => some ([], rest)
  | '\\' :: 'u' :: a :: b :: c :: d :: rest =>
    match hexValue4? a b c d with
    | none => none
    | some n =>
      if isLowSurrogate n then none
      else if isHighSurrogate n then
        match rest with
        | '\\' :: 'u' :: e :: f :: g :: h :: rest =>
          match hexValue4? e f g h with
          | none => none
          | some low =>
            if isLowSurrogate low then
              (readQuoted rest).map fun (cs, rest) => (ofSurrogates n low :: cs, rest)
            else none
        | _ => none
      else (readQuoted rest).map fun (cs, rest) => (Char.ofNat n :: cs, rest)
  | '\\' :: letter :: rest =>
    match unescape? letter with
    | none => none
    | some c => (readQuoted rest).map fun (cs, rest) => (c :: cs, rest)
  | c :: rest =>
    if c == '\\' || c.toNat < 0x20 then none
    else (readQuoted rest).map fun (cs, rest) => (c :: cs, rest)

/-- Appends digits to a number while it fits into 64 bits; answers also how many were taken. -/
def takeDigits (n count : Nat) : List Char → Nat × Nat × List Char
  | [] => (n, count, [])
  | c :: cs =>
    if 10 * n + Text.digitValue c < UInt64.size then
      takeDigits (10 * n + Text.digitValue c) (count + 1) cs
    else (n, count, c :: cs)

/-- The power of ten with a natural exponent, rounded once. -/
def tenPower (exponent : Nat) : Decimal := Decimal.ofScientific false 1 exponent

/-- Divides by `10 ^ 308` until the exponent lies in the range of decimal powers of ten. -/
def scaleDown : Nat → Decimal → Nat → Decimal
  | 0, d, _ => d
  | fuel + 1, d, exponent =>
    if exponent ≤ 308 then d.div (tenPower exponent)
    else if d.isZero then d
    else scaleDown fuel (d.div (tenPower 308)) (exponent - 308)

/-- The decimal `significand * 10 ^ exponent`; nothing if it is beyond the greatest decimal. -/
def scale? (significand : Nat) (exponent : Int) : Option Decimal :=
  let d := Decimal.ofInt significand
  if exponent < 0 then some (scaleDown 8 d (-exponent).toNat)
  else if exponent ≤ 308 then
    let product := d.mul (tenPower exponent.toNat)
    if product.isInfinite then none else some product
  else if d.isZero then some d
  else none

/-- The exponent after its mark. -/
def readExponent : Reader Int := fun cs =>
  let (negative, body) := Text.splitSign cs
  let digits := body.takeWhile Char.isDigit
  if digits.isEmpty then none
  else some (Text.signed negative (Text.natOfDigits digits), body.dropWhile Char.isDigit)

/-- Reads an optional exponent and computes the decimal. -/
def readScaled (significand : Nat) (exponent : Int) : Reader Decimal
  | mark :: rest =>
    if mark == 'e' || mark == 'E' then do
      let (n, rest) ← readExponent rest
      pure (← scale? significand (exponent + n), rest)
    else (scale? significand exponent).map fun d => (d, mark :: rest)
  | [] => (scale? significand exponent).map fun d => (d, [])

/-- Reads the fraction after its point: digits beyond 64 bits are dropped. -/
def readFraction (significand : Nat) (exponent : Int) : Reader Decimal := fun cs =>
  let digits := cs.takeWhile Char.isDigit
  let (n, count, _) := takeDigits significand 0 digits
  if digits.isEmpty then none else readScaled n (exponent - count) (cs.dropWhile Char.isDigit)

/-- Reads a number without its sign. -/
def readMagnitude (negative : Bool) : Reader JsonTree := fun cs =>
  let digits := cs.takeWhile Char.isDigit
  let rest := cs.dropWhile Char.isDigit
  let withSign (d : Decimal) : JsonTree := .decimal (if negative then d.neg else d)
  if digits.isEmpty || (digits.length != 1 && digits.head? == some '0') then none
  else
    let (n, _, dropped) := takeDigits 0 0 digits
    match rest with
    | '.' :: rest =>
      (readFraction n dropped.length rest).map fun (d, rest) => (withSign d, rest)
    | _ =>
      let marked := rest.head? == some 'e' || rest.head? == some 'E'
      if marked || !dropped.isEmpty || (negative && (n == 0 || !Text.fitsInt64 (-n))) then
        (readScaled n dropped.length rest).map fun (d, rest) => (withSign d, rest)
      else some (.int (Text.signed negative n), rest)

def readNumber : Reader JsonTree
  | '-' :: rest => readMagnitude true rest
  | cs => readMagnitude false cs

/-- Reads one item and then, after each comma, another one, up to the closing character. The fuel
bounds the number of items. -/
def readItems {α : Type} (item : Reader α) (close : Char) : Nat → Reader (List α)
  | 0, _ => none
  | fuel + 1, cs => do
    let (x, rest) ← item cs
    match skipBlanks rest with
    | c :: rest =>
      if c = close then pure ([x], rest)
      else if c = ',' then
        let (xs, rest) ← readItems item close fuel rest
        pure (x :: xs, rest)
      else none
    | [] => none

/-- Reads the items of an array or an object after its opening character. -/
def readSequence {α : Type} (item : Reader α) (close : Char) : Reader (List α) := fun cs =>
  match skipBlanks cs with
  | c :: rest =>
    if c = close then some ([], rest) else readItems item close rest.length.succ (c :: rest)
  | [] => none

/-- Reads a quoted key, a colon and a value. -/
def readEntry (value : Reader JsonTree) : Reader (String × JsonTree) := fun cs =>
  match skipBlanks cs with
  | '"' :: rest => do
    let (key, rest) ← readQuoted rest
    match skipBlanks rest with
    | ':' :: rest => do
      let (v, rest) ← value rest
      pure ((String.ofList key, v), rest)
    | _ => none
  | _ => none

/-- Reads a value that starts at a character other than a bracket, a brace or a blank. -/
def readScalar : Reader JsonTree
  | 'n' :: 'u' :: 'l' :: 'l' :: rest => some (.null, rest)
  | 't' :: 'r' :: 'u' :: 'e' :: rest => some (.bool true, rest)
  | 'f' :: 'a' :: 'l' :: 's' :: 'e' :: rest => some (.bool false, rest)
  | '"' :: rest => (readQuoted rest).map fun (cs, rest) => (.str (String.ofList cs), rest)
  | cs => readNumber cs

/-- Reads a value that nests at most `depth` levels of arrays and objects. -/
def readTree : Nat → Reader JsonTree
  | 0, cs => readScalar (skipBlanks cs)
  | depth + 1, cs =>
    match skipBlanks cs with
    | '[' :: rest =>
      (readSequence (readTree depth) ']' rest).map fun (items, rest) => (.arr items, rest)
    | '\x7b' :: rest =>
      (readSequence (readEntry (readTree depth)) '\x7d' rest).map fun (entries, rest) =>
        (.obj (OrderedMap.ofPairs entries), rest)
    | rest => readScalar rest

/-- The greatest number of nested arrays and objects. -/
def maxNesting : Nat := 127

/-- Reads a whole text. -/
def read? (text : String) : Option JsonTree :=
  match readTree maxNesting text.toList with
  | some (tree, rest) => if (skipBlanks rest).isEmpty then some tree else none
  | none => none

end ReactiveScript.Json

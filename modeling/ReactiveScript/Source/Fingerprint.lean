import ReactiveScript.Source.Basic

/-!
# Source fingerprints

A 64-bit hash of the bytes of a text, and the short label in base 36 that is made of its low half.
The bytes are taken in little-endian words and folded into two accumulators by a multiplication
whose two halves are combined.
-/

namespace ReactiveScript.Fingerprint

/-- The little-endian number in `count` bytes from an index. -/
def word (bytes : List UInt8) (start count : Nat) : UInt64 :=
  UInt64.ofNat (((bytes.drop start).take count).foldr (fun b n => b.toNat + 256 * n) 0)

/-- The two halves of the full product, combined by exclusive or. -/
def mix (x y : UInt64) : UInt64 :=
  let product := x.toNat * y.toNat
  UInt64.ofNat (product % UInt64.size) ^^^ UInt64.ofNat (product / UInt64.size)

/-- The bits moved up by `n` places, those that leave at the top entering below. -/
def rotateLeft (x : UInt64) (n : Nat) : UInt64 :=
  UInt64.ofNat (x.toNat * Nat.pow 2 n % UInt64.size + x.toNat / Nat.pow 2 (64 - n))

/-- The two accumulators. -/
structure Accumulators where
  first : UInt64
  second : UInt64

def Accumulators.start : Accumulators := ⟨0x243f6a8885a308d3, 0x13198a2e03707344⟩

/-- Folds in one block of sixteen bytes. -/
def Accumulators.block (bytes : List UInt8) (s : Accumulators) (index : Nat) : Accumulators :=
  ⟨s.second, mix (s.first ^^^ word bytes (16 * index) 8)
    (0xa4093822299f31d0 ^^^ word bytes (16 * index + 8) 8)⟩

/-- The accumulators after all bytes; the last bytes may be taken twice. -/
def Accumulators.ofBytes (bytes : List UInt8) : Accumulators :=
  let n := bytes.length
  let s := Accumulators.start
  if n = 0 then s
  else if n < 4 then
    ⟨s.first ^^^ word bytes 0 1, s.second ^^^ (word bytes (n - 1) 1 <<< 8 ||| word bytes (n / 2) 1)⟩
  else if n < 8 then ⟨s.first ^^^ word bytes 0 4, s.second ^^^ word bytes (n - 4) 4⟩
  else if n ≤ 16 then ⟨s.first ^^^ word bytes 0 8, s.second ^^^ word bytes (n - 8) 8⟩
  else
    let s := (List.range ((n - 1) / 16)).foldl (Accumulators.block bytes) s
    ⟨s.first ^^^ word bytes (n - 16) 8, s.second ^^^ word bytes (n - 8) 8⟩

/-- The hash of a sequence of bytes. -/
def ofBytes (bytes : List UInt8) : UInt64 :=
  let s := Accumulators.ofBytes bytes
  let hash := mix s.first s.second ^^^ UInt64.ofNat bytes.length
  rotateLeft (hash * 0xf1357aea2e62a9c5) 26

end ReactiveScript.Fingerprint

namespace ReactiveScript

/-- The digits of a number in a base, most significant first. -/
def baseDigits (base n : Nat) : List Nat :=
  if 2 ≤ base ∧ base ≤ n then baseDigits base (n / base) ++ [n % base] else [n]
termination_by n
decreasing_by exact Nat.div_lt_self (by omega) (by omega)

/-- The low 32 bits of the hash of a text, in base 36. -/
def SourceText.shortHash (s : SourceText) : String :=
  let hash := Fingerprint.ofBytes s.text.toUTF8.toList
  let digit (n : Nat) : Char := if n < 10 then Char.ofNat (48 + n) else Char.ofNat (87 + n)
  String.ofList ((baseDigits 36 (hash.toNat % UInt32.size)).map digit)

end ReactiveScript

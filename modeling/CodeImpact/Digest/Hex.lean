/-!
# Hexadecimal text

Bytes as two lowercase hexadecimal digits each, and words as bytes.
-/

namespace CodeImpact.Digest

/-- The lowercase hexadecimal digit of a value below sixteen. -/
def hexDigit (n : Nat) : Char :=
  if n < 10 then Char.ofNat (48 + n) else Char.ofNat (87 + n)

/-- Two digits, the high half first. -/
def hexByte (b : UInt8) : List Char :=
  [hexDigit (b.toNat / 16), hexDigit (b.toNat % 16)]

/-- All bytes in order. -/
def hexText (bytes : List UInt8) : String :=
  String.ofList (bytes.flatMap hexByte)

/-- The value of a hexadecimal digit in lower or upper case. -/
def hexValue? (c : Char) : Option Nat :=
  let n := c.toNat
  if 48 ≤ n && n ≤ 57 then some (n - 48)
  else if 97 ≤ n && n ≤ 102 then some (n - 87)
  else if 65 ≤ n && n ≤ 70 then some (n - 55)
  else none

/-- The bytes a hexadecimal text spells; an odd digit count or another character spells none. -/
def bytesOfHex? : List Char → Option (List UInt8)
  | [] => some []
  | high :: low :: rest => do
    let h ← hexValue? high
    let l ← hexValue? low
    let bytes ← bytesOfHex? rest
    some (UInt8.ofNat (16 * h + l) :: bytes)
  | [_] => none

/-- The four bytes of a word, the high byte first. -/
def bytesHighFirst (w : UInt32) : List UInt8 :=
  [(w >>> 24).toUInt8, (w >>> 16).toUInt8, (w >>> 8).toUInt8, w.toUInt8]

/-- The four bytes of a word, the low byte first. -/
def bytesLowFirst (w : UInt32) : List UInt8 :=
  [w.toUInt8, (w >>> 8).toUInt8, (w >>> 16).toUInt8, (w >>> 24).toUInt8]

/-- The word turned right by `n` places, for `n` between 1 and 31. -/
def turnRight (w n : UInt32) : UInt32 :=
  (w >>> n) ||| (w <<< (32 - n))

end CodeImpact.Digest

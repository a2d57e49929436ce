import CodeImpact.Digest.Hex

/-!
# SHA-256

The 256-bit Secure Hash Algorithm: padding to blocks of 64 bytes, the message schedule and 64
rounds of compression per block.
-/

namespace CodeImpact.Digest.Sha256

/-- One constant per round: the fractional parts of the cube roots of the first 64 primes. -/
def roundConstants : Array UInt32 :=
  #[0x428a2f98, 0x71374491, 0xb5c0fbcf, 0xe9b5dba5, 0x3956c25b, 0x59f111f1, 0x923f82a4, 0xab1c5ed5,
    0xd807aa98, 0x12835b01, 0x243185be, 0x550c7dc3, 0x72be5d74, 0x80deb1fe, 0x9bdc06a7, 0xc19bf174,
    0xe49b69c1, 0xefbe4786, 0x0fc19dc6, 0x240ca1cc, 0x2de92c6f, 0x4a7484aa, 0x5cb0a9dc, 0x76f988da,
    0x983e5152, 0xa831c66d, 0xb00327c8, 0xbf597fc7, 0xc6e00bf3, 0xd5a79147, 0x06ca6351, 0x14292967,
    0x27b70a85, 0x2e1b2138, 0x4d2c6dfc, 0x53380d13, 0x650a7354, 0x766a0abb, 0x81c2c92e, 0x92722c85,
    0xa2bfe8a1, 0xa81a664b, 0xc24b8b70, 0xc76c51a3, 0xd192e819, 0xd6990624, 0xf40e3585, 0x106aa070,
    0x19a4c116, 0x1e376c08, 0x2748774c, 0x34b0bcb5, 0x391c0cb3, 0x4ed8aa4a, 0x5b9cca4f, 0x682e6ff3,
    0x748f82ee, 0x78a5636f, 0x84c87814, 0x8cc70208, 0x90befffa, 0xa4506ceb, 0xbef9a3f7, 0xc67178f2]

/-- The eight chaining words. -/
structure State where
  (a b c d e f g h : UInt32)

/-- The fractional parts of the square roots of the first eight primes. -/
def State.initial : State :=
  ⟨0x6a09e667, 0xbb67ae85, 0x3c6ef372, 0xa54ff53a, 0x510e527f, 0x9b05688c, 0x1f83d9ab, 0x5be0cd19⟩

/-- One round with schedule word `w` and round constant `k`. -/
def State.round (s : State) (w k : UInt32) : State :=
  let mixE := turnRight s.e 6 ^^^ turnRight s.e 11 ^^^ turnRight s.e 25
  let choice := (s.e &&& s.f) ^^^ ((~~~s.e) &&& s.g)
  let t1 := s.h + mixE + choice + k + w
  let mixA := turnRight s.a 2 ^^^ turnRight s.a 13 ^^^ turnRight s.a 22
  let majority := (s.a &&& s.b) ^^^ (s.a &&& s.c) ^^^ (s.b &&& s.c)
  ⟨t1 + (mixA + majority), s.a, s.b, s.c, s.d + t1, s.e, s.f, s.g⟩

def State.add (s t : State) : State :=
  ⟨s.a + t.a, s.b + t.b, s.c + t.c, s.d + t.d, s.e + t.e, s.f + t.f, s.g + t.g, s.h + t.h⟩

/-- Words of four bytes each, the high byte first; a rest of less than four bytes is dropped. -/
def wordsOf : List UInt8 → List UInt32
  | a :: b :: c :: d :: rest =>
    ((a.toUInt32 <<< 24) ||| (b.toUInt32 <<< 16) ||| (c.toUInt32 <<< 8) ||| d.toUInt32) ::
      wordsOf rest
  | _ => []

/-- Adds one word to the schedule from the words 2, 7, 15 and 16 places back. -/
def extendSchedule (ws : Array UInt32) : Array UInt32 :=
  let n := ws.size
  let w15 := ws.getD (n - 15) 0
  let w2 := ws.getD (n - 2) 0
  let s0 := turnRight w15 7 ^^^ turnRight w15 18 ^^^ (w15 >>> 3)
  let s1 := turnRight w2 17 ^^^ turnRight w2 19 ^^^ (w2 >>> 10)
  ws.push (ws.getD (n - 16) 0 + s0 + ws.getD (n - 7) 0 + s1)

/-- The 64 schedule words of a block. -/
def schedule (block : List UInt32) : Array UInt32 :=
  (List.range 48).foldl (fun ws _ => extendSchedule ws) block.toArray

/-- Folds one block of sixteen words into the chaining words. -/
def compress (s : State) (block : List UInt32) : State :=
  let ws := schedule block
  s.add ((List.range 64).foldl (fun t i => t.round (ws.getD i 0) (roundConstants.getD i 0)) s)

/-- The message, a one bit, zero bits up to a whole block, and the length in bits. -/
def pad (message : List UInt8) : List UInt8 :=
  let size := message.length
  let zeros := (55 + 64 - size % 64) % 64
  let bits := UInt64.ofNat (8 * size)
  let length := [56, 48, 40, 32, 24, 16, 8, 0].map fun (n : UInt64) => (bits >>> n).toUInt8
  message ++ [0x80] ++ List.replicate zeros 0 ++ length

/-- Compresses the first `n` blocks of the words. -/
def absorb : Nat → State → List UInt32 → State
  | 0, s, _ => s
  | n + 1, s, words => absorb n (compress s (words.take 16)) (words.drop 16)

def digest (message : List UInt8) : List UInt8 :=
  let words := wordsOf (pad message)
  let s := absorb (words.length / 16) State.initial words
  [s.a, s.b, s.c, s.d, s.e, s.f, s.g, s.h].flatMap bytesHighFirst

/-- The digest of a text's UTF-8 bytes in hexadecimal. -/
def hexOfText (text : String) : String :=
  hexText (digest text.toUTF8.toList)

end CodeImpact.Digest.Sha256

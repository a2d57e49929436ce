import CodeImpact.Digest.Hex

/-!
# BLAKE3

The input is cut into chunks of 1024 bytes and each chunk into blocks of 64. The chunks are the leaves
of a binary tree whose left subtrees are complete, and the digest is what its root compresses to.
-/

namespace CodeImpact.Digest.Blake3

/-- The initial chaining words, those of SHA-256. -/
def initial : Array UInt32 :=
  #[0x6a09e667, 0xbb67ae85, 0x3c6ef372, 0xa54ff53a, 0x510e527f, 0x9b05688c, 0x1f83d9ab, 0x5be0cd19]

/-- Where each message word goes between rounds. -/
def permutation : List Nat :=
  [2, 6, 3, 10, 7, 0, 4, 13, 1, 11, 12, 5, 9, 14, 15, 8]

/-- Mixes four state words with two message words. -/
def mix (v : Array UInt32) (a b c d : Nat) (x y : UInt32) : Array UInt32 :=
  let va := v.getD a 0 + v.getD b 0 + x
  let vd := turnRight (v.getD d 0 ^^^ va) 16
  let vc := v.getD c 0 + vd
  let vb := turnRight (v.getD b 0 ^^^ vc) 12
  let va := va + vb + y
  let vd := turnRight (vd ^^^ va) 8
  let vc := vc + vd
  let vb := turnRight (vb ^^^ vc) 7
  (((v.set! a va).set! b vb).set! c vc).set! d vd

/-- The columns, then the diagonals. -/
def round (v m : Array UInt32) : Array UInt32 :=
  let word i := m.getD i 0
  let v := mix v 0 4 8 12 (word 0) (word 1)
  let v := mix v 1 5 9 13 (word 2) (word 3)
  let v := mix v 2 6 10 14 (word 4) (word 5)
  let v := mix v 3 7 11 15 (word 6) (word 7)
  let v := mix v 0 5 10 15 (word 8) (word 9)
  let v := mix v 1 6 11 12 (word 10) (word 11)
  let v := mix v 2 7 8 13 (word 12) (word 13)
  mix v 3 4 9 14 (word 14) (word 15)

/-- `n` rounds with the message words permuted in between. -/
def rounds : Nat → Array UInt32 → Array UInt32 → Array UInt32
  | 0, v, _ => v
  | n + 1, v, m => rounds n (round v m) (permutation.map (m.getD · 0)).toArray

/-- What the last compression of a chunk or of a parent takes. -/
structure Output where
  cv : Array UInt32
  block : Array UInt32
  counter : UInt64
  size : UInt32
  flags : UInt32

namespace Output

/-- The chaining words with these flags added. -/
def compressWith (o : Output) (extra : UInt32) : Array UInt32 :=
  let v := o.cv ++ initial.extract 0 4 ++
    #[o.counter.toUInt32, (o.counter >>> 32).toUInt32, o.size, o.flags ||| extra]
  let out := rounds 7 v o.block
  ((List.range 8).map fun i => out.getD i 0 ^^^ out.getD (i + 8) 0).toArray

def compress (o : Output) : Array UInt32 :=
  o.compressWith 0

/-- The chaining words of the node at the top. -/
def compressRoot (o : Output) : Array UInt32 :=
  o.compressWith 8

/-- The node above two others, whose block is their chaining words. -/
def parent (left right : Output) : Output :=
  ⟨initial, left.compress ++ right.compress, 0, 64, 4⟩

/-- Each two neighbours under a parent; a last one alone stays as it is. -/
def pairUp : List Output → List Output
  | left :: right :: rest => parent left right :: pairUp rest
  | [o] => [o]
  | [] => []

/-- The top of the tree over these nodes. Pairs are formed level by level, so that every left subtree
is complete; a level of one node stays as it is, so as many rounds as there are other nodes suffice. -/
def top (first : Output) (others : List Output) : Output :=
  ((others.foldl (fun level _ => pairUp level) (first :: others)).head?).getD first

end Output

/-- Words of four bytes each, the low byte first, with zeros for the bytes that lack. -/
def wordsOf : List UInt8 → List UInt32
  | [] => []
  | [a] => [a.toUInt32]
  | [a, b] => [a.toUInt32 ||| (b.toUInt32 <<< 8)]
  | [a, b, c] => [a.toUInt32 ||| (b.toUInt32 <<< 8) ||| (c.toUInt32 <<< 16)]
  | a :: b :: c :: d :: rest =>
    (a.toUInt32 ||| (b.toUInt32 <<< 8) ||| (c.toUInt32 <<< 16) ||| (d.toUInt32 <<< 24)) ::
      wordsOf rest

def blockOf (bytes : List UInt8) : Array UInt32 :=
  let words := wordsOf bytes
  (words ++ List.replicate (16 - words.length) 0).toArray

/-- The blocks of a chunk before its last one, then the last one; `start` marks the first. -/
def absorb (counter : UInt64) : Nat → Array UInt32 → UInt32 → List UInt8 → Output
  | 0, cv, start, bytes =>
    ⟨cv, blockOf bytes, counter, UInt32.ofNat bytes.length, start ||| 2⟩
  | n + 1, cv, start, bytes =>
    absorb counter n (Output.mk cv (blockOf (bytes.take 64)) counter 64 start).compress 0
      (bytes.drop 64)

/-- The chunk with this number; only the first may be empty. -/
def chunk (bytes : List UInt8) (i : Nat) : Output :=
  let own := (bytes.drop (1024 * i)).take 1024
  absorb (UInt64.ofNat i) ((own.length - 1) / 64) initial 1 own

def digest (bytes : List UInt8) : List UInt8 :=
  let others := (List.range ((bytes.length - 1) / 1024)).map fun i => chunk bytes (i + 1)
  (Output.top (chunk bytes 0) others).compressRoot.toList.flatMap bytesLowFirst

end CodeImpact.Digest.Blake3

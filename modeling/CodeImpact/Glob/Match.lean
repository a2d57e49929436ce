import CodeImpact.Glob.Basic

/-!
# Matching file patterns

A pattern matches the bytes of a whole path. What a token matches is told by what may remain of the
path after it.
-/

namespace CodeImpact

namespace Glob

/-- A text and all that remains of it after dropping bytes from its start. -/
def remainders : List UInt8 → List (List UInt8)
  | [] => [[]]
  | b :: rest => (b :: rest) :: remainders rest

def slash : UInt8 := 47

/-- What remains after any number of bytes that are not slashes. -/
def remaindersInName : List UInt8 → List (List UInt8)
  | [] => [[]]
  | b :: rest => (b :: rest) :: if b = slash then [] else remaindersInName rest

/-- What remains after any slash. -/
def afterSlashes : List UInt8 → List (List UInt8)
  | [] => []
  | b :: rest => if b = slash then rest :: afterSlashes rest else afterSlashes rest

/-- What remains of a text after given bytes. -/
def afterBytes (lead s : List UInt8) : List (List UInt8) :=
  if lead.isPrefixOf s then [s.drop lead.length] else []

def charBytes (c : Char) : List UInt8 :=
  c.toString.toUTF8.toList

/-- The ranges of bytes that a range of characters stands for. All bytes of the two ends count, and
those between the last byte of the lower and the first byte of the upper end. -/
def byteRanges (range : Char × Char) : List (UInt8 × UInt8) :=
  let low := charBytes range.1
  let high := charBytes range.2
  let single (b : UInt8) := (b, b)
  if range.1 = range.2 then low.map single
  else
    low.dropLast.map single ++ [(low.getLast?.getD 0, high.head?.getD 0)] ++ high.tail.map single

def inRanges (ranges : List (Char × Char)) (b : UInt8) : Bool :=
  (ranges.flatMap byteRanges).any fun (low, high) => low ≤ b && b ≤ high

mutual

/-- Whether a token matches only the empty text because nothing is left of its alternatives. -/
def Token.isVoid : Token → Bool
  | .alternatives branches => branchesVoid branches
  | _ => false

def tokensVoid : List Token → Bool
  | [] => true
  | t :: rest => t.isVoid && tokensVoid rest

def branchesVoid : List (List Token) → Bool
  | [] => true
  | ts :: rest => tokensVoid ts && branchesVoid rest

end

/-- Keeps one of several remainders of the same length; remainders of one text are then equal. -/
def distinct (rests : List (List UInt8)) : List (List UInt8) :=
  rests.foldr (fun r kept => if kept.any (·.length = r.length) then kept else r :: kept) []

mutual

/-- What may remain of a text after a token. If `names`, `*` and `?` do not match a slash. Empty
alternatives do not count. -/
def Token.rests (names : Bool) : Token → List UInt8 → List (List UInt8)
  | .literal c, s => afterBytes (charBytes c) s
  | .any, s =>
    match s with
    | b :: rest => if names && b = slash then [] else [rest]
    | [] => []
  | .many, s => if names then remaindersInName s else remainders s
  | .leadingDirs, s => s :: afterSlashes s
  | .trailingDirs, s => (afterBytes [slash] s).flatMap remainders
  | .middleDirs, s => (afterBytes [slash] s).flatMap fun rest => rest :: afterSlashes rest
  | .oneOf negated ranges, s =>
    match s with
    | b :: rest => if inRanges ranges b = negated then [] else [rest]
    | [] => []
  | .alternatives branches, s =>
    if branchesVoid branches then [s] else branchRests names branches s

/-- What may remain of one of several texts after all tokens. -/
def tokenRests (names : Bool) : List Token → List (List UInt8) → List (List UInt8)
  | [], texts => texts
  | t :: rest, texts => tokenRests names rest (distinct (texts.flatMap fun s => t.rests names s))

/-- What may remain of a text after one of the alternatives. -/
def branchRests (names : Bool) : List (List Token) → List UInt8 → List (List UInt8)
  | [], _ => []
  | ts :: rest, s =>
    (if tokensVoid ts then [] else tokenRests names ts [s]) ++ branchRests names rest s

end

end Glob

/-- A pattern that can be matched with paths. -/
structure Glob where
  tokens : List Glob.Token
  /-- Whether `*` and `?` stop at slashes. -/
  names : Bool
  deriving Inhabited

namespace Glob

/-- Whether the pattern matches the whole path. Two stars alone match everything. -/
def matchesPath (g : Glob) (path : String) : Bool :=
  match g.tokens with
  | [.leadingDirs] => true
  | tokens => (tokenRests g.names tokens [path.toUTF8.toList]).any (·.isEmpty)

/-- Reads a pattern for whole paths, in which `*` and `?` also match slashes. -/
def ofText (pattern : String) : Except Error Glob :=
  (readTokens false pattern.toList).map fun ts => ⟨ts, false⟩

/-- Reads a pattern for names between slashes, in which a bracket may stay open. -/
def ofNamePattern (pattern : List Char) : Except Error Glob :=
  (readTokens true pattern).map fun ts => ⟨ts, true⟩

end Glob

end CodeImpact

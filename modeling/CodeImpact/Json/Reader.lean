import CodeImpact.Digest.Hex
import CodeImpact.Json.Basic
import CodeImpact.Text.Number

/-!
# Reading JSON

A text is cut into tokens, one character at a time, and the tokens are put together with a stack of
the lists and objects that are still open.
-/

namespace CodeImpact.Json

/-- The smallest units of the format. -/
inductive Token
  | openList
  | closeList
  | openObject
  | closeObject
  | comma
  | colon
  | text (s : List Char)
  /-- A number or one of the three words. -/
  | word (s : List Char)
  deriving DecidableEq, Repr, Inhabited

/-- What the lexer is inside of; the characters of the current token are held in reverse. -/
inductive Mode
  | idle
  | word (acc : List Char)
  | text (acc : List Char)
  | escape (acc : List Char)
  /-- Hexadecimal digits of a code point. -/
  | code (acc : List Char) (left value : Nat)
  /-- After the first half of a surrogate pair. -/
  | half (acc : List Char) (high : Nat)
  | halfEscape (acc : List Char) (high : Nat)
  | halfCode (acc : List Char) (high left value : Nat)
  deriving DecidableEq, Repr, Inhabited

/-- The tokens so far in reverse, and the current one. -/
structure Lexer where
  done : List Token
  mode : Mode
  deriving DecidableEq, Repr, Inhabited

namespace Lexer

/-- Blank space between tokens. -/
def isSpace (c : Char) : Bool :=
  c = ' ' || c = '\t' || c = '\n' || c = '\r'

/-- The token that one character makes. -/
def punctuation? (c : Char) : Option Token :=
  if c = '[' then some .openList
  else if c = ']' then some .closeList
  else if c = '\x7b' then some .openObject
  else if c = '\x7d' then some .closeObject
  else if c = ',' then some .comma
  else if c = ':' then some .colon
  else none

/-- A character between tokens, after the tokens `done`. -/
def between (done : List Token) (c : Char) : Lexer :=
  if isSpace c then ⟨done, .idle⟩
  else if c = '\"' then ⟨done, .text []⟩
  else
    match punctuation? c with
    | some t => ⟨t :: done, .idle⟩
    | none => ⟨done, .word [c]⟩

/-- Whether a character ends a word. -/
def endsWord (c : Char) : Bool :=
  isSpace c || c = '\"' || (punctuation? c).isSome

/-- The character that an escape letter stands for. -/
def escaped? (c : Char) : Option Char :=
  if c = '\"' || c = '\\' || c = '/' then some c
  else if c = 'b' then some '\x08'
  else if c = 'f' then some '\x0c'
  else if c = 'n' then some '\n'
  else if c = 'r' then some '\r'
  else if c = 't' then some '\t'
  else none

/-- The text after a whole code point: a character, or the first half of a pair. -/
def closeCode (done : List Token) (acc : List Char) (value : Nat) : Option Lexer :=
  if 0xD800 ≤ value ∧ value < 0xDC00 then some ⟨done, .half acc value⟩
  else if 0xDC00 ≤ value ∧ value < 0xE000 then none
  else some ⟨done, .text (Char.ofNat value :: acc)⟩

/-- The text after the second half of a pair. -/
def closePair (done : List Token) (acc : List Char) (high value : Nat) : Option Lexer :=
  if 0xDC00 ≤ value ∧ value < 0xE000 then
    let point := 0x10000 + (high - 0xD800) * 0x400 + (value - 0xDC00)
    some ⟨done, .text (Char.ofNat point :: acc)⟩
  else none

/-- The lexer after one more character. -/
def step (s : Lexer) (c : Char) : Option Lexer :=
  match s.mode with
  | .idle => some (between s.done c)
  | .word acc =>
    if endsWord c then some (between (.word acc.reverse :: s.done) c)
    else some ⟨s.done, .word (c :: acc)⟩
  | .text acc =>
    if c = '\"' then some ⟨.text acc.reverse :: s.done, .idle⟩
    else if c = '\\' then some ⟨s.done, .escape acc⟩
    else if c.toNat < 32 then none
    else some ⟨s.done, .text (c :: acc)⟩
  | .escape acc =>
    if c = 'u' then some ⟨s.done, .code acc 3 0⟩
    else (escaped? c).map fun e => ⟨s.done, .text (e :: acc)⟩
  | .code acc left value =>
    (Digest.hexValue? c).bind fun d =>
      match left with
      | 0 => closeCode s.done acc (16 * value + d)
      | left + 1 => some ⟨s.done, .code acc left (16 * value + d)⟩
  | .half acc high => if c = '\\' then some ⟨s.done, .halfEscape acc high⟩ else none
  | .halfEscape acc high => if c = 'u' then some ⟨s.done, .halfCode acc high 3 0⟩ else none
  | .halfCode acc high left value =>
    (Digest.hexValue? c).bind fun d =>
      match left with
      | 0 => closePair s.done acc high (16 * value + d)
      | left + 1 => some ⟨s.done, .halfCode acc high left (16 * value + d)⟩

/-- The tokens at the end of the text; none inside a quoted text. -/
def finish (s : Lexer) : Option (List Token) :=
  match s.mode with
  | .idle => some s.done.reverse
  | .word acc => some (Token.word acc.reverse :: s.done).reverse
  | _ => none

end Lexer

def tokens? (text : List Char) : Option (List Token) :=
  (text.foldlM Lexer.step ⟨[], .idle⟩).bind Lexer.finish

/-- Whether the digits of a whole number are written without a leading zero. -/
def isWhole (s : List Char) : Bool :=
  !s.isEmpty && s.all Char.isDigit && (s.length = 1 || s.head? ≠ some '0')

/-- Whether the text after a whole number is a fraction, an exponent, or both. -/
def isFraction (s : List Char) : Bool :=
  let point := s.head? = some '.'
  let places := if point then s.tail.takeWhile Char.isDigit else []
  let rest := if point then s.tail.dropWhile Char.isDigit else s
  let exponent :=
    match rest with
    | [] => point
    | e :: sign :: digits =>
      (e = 'e' || e = 'E') &&
        (if sign = '+' || sign = '-' then (Text.decimal? digits).isSome
        else (Text.decimal? (sign :: digits)).isSome)
    | [_] => false
  (!point || !places.isEmpty) && exponent

/-- The number that a word writes. -/
def number? (word : List Char) : Option Json :=
  let negative := word.head? = some '-'
  let body := if negative then word.tail else word
  let whole := body.takeWhile Char.isDigit
  let rest := body.dropWhile Char.isDigit
  if !isWhole whole then none
  else if rest.isEmpty then
    (Text.decimal? whole).map fun n =>
      if !negative && n < Text.wordBound then .int n
      else if negative && 0 < n && 2 * n ≤ Text.wordBound then .int (-(n : Int))
      else .real (String.ofList word)
  else if isFraction rest then some (.real (String.ofList word))
  else none

/-- The value of a word. -/
def scalar? (word : List Char) : Option Json :=
  if word = "null".toList then some .null
  else if word = "true".toList then some (.bool true)
  else if word = "false".toList then some (.bool false)
  else number? word

/-- A list or an object that is still open; its items are held in reverse. -/
inductive Pending
  | list (items : List Json)
  | object (fields : List (String × Json))
  /-- An object that waits for the value of a field. -/
  | field (fields : List (String × Json)) (name : String)
  deriving Inhabited

/-- What may come next. -/
inductive Spot
  | value
  /-- A value or the end of an empty list. -/
  | firstItem
  /-- A field or the end of an empty object. -/
  | firstField
  | field
  | colon (name : String)
  /-- A comma or the end of what is open. -/
  | after
  /-- Nothing: the value is complete. -/
  | done (v : Json)
  deriving Inhabited

/-- What is open, innermost first, and what may come next. -/
structure Builder where
  pending : List Pending
  spot : Spot
  deriving Inhabited

namespace Builder

/-- How many lists and objects may be open at once. -/
def depthLimit : Nat := 127

/-- Hands a finished value to what is open. -/
def deliver (v : Json) : List Pending → Option Builder
  | [] => some ⟨[], .done v⟩
  | .list items :: rest => some ⟨.list (v :: items) :: rest, .after⟩
  | .field fields name :: rest => some ⟨.object ((name, v) :: fields) :: rest, .after⟩
  | .object _ :: _ => none

/-- Opens a list or an object. -/
def enter (pending : List Pending) (p : Pending) (spot : Spot) : Option Builder :=
  if pending.length < depthLimit then some ⟨p :: pending, spot⟩ else none

/-- A token where a value may start. -/
def startValue (pending : List Pending) : Token → Option Builder
  | .openList => enter pending (.list []) .firstItem
  | .openObject => enter pending (.object []) .firstField
  | .text s => deliver (.str (String.ofList s)) pending
  | .word s => (scalar? s).bind fun v => deliver v pending
  | _ => none

/-- A token where a field may start. -/
def startField (pending : List Pending) : Token → Option Builder
  | .text s => some ⟨pending, .colon (String.ofList s)⟩
  | _ => none

/-- Closes the innermost list or object. -/
def leave (pending : List Pending) (t : Token) : Option Builder :=
  match pending, t with
  | .list items :: rest, .closeList => deliver (.arr items.reverse) rest
  | .object fields :: rest, .closeObject => deliver (.obj fields.reverse) rest
  | _, _ => none

/-- The state after one more token. -/
def step (b : Builder) (t : Token) : Option Builder :=
  match b.spot with
  | .value => startValue b.pending t
  | .firstItem => (leave b.pending t).or (startValue b.pending t)
  | .firstField => (leave b.pending t).or (startField b.pending t)
  | .field => startField b.pending t
  | .colon name =>
    match b.pending, t with
    | .object fields :: rest, .colon => some ⟨.field fields name :: rest, .value⟩
    | _, _ => none
  | .after =>
    match b.pending, t with
    | .list items :: rest, .comma => some ⟨.list items :: rest, .value⟩
    | .object fields :: rest, .comma => some ⟨.object fields :: rest, .field⟩
    | pending, t => leave pending t
  | .done _ => none

/-- The value, once it is complete. -/
def finish (b : Builder) : Option Json :=
  match b.spot with
  | .done v => some v
  | _ => none

end Builder

def ofTokens? (ts : List Token) : Option Json :=
  (ts.foldlM Builder.step ⟨[], .value⟩).bind Builder.finish

def parse? (text : String) : Option Json :=
  (tokens? text.toList).bind ofTokens?

end CodeImpact.Json

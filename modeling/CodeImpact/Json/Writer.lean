import CodeImpact.Digest.Hex
import CodeImpact.Json.Basic

/-!
# Writing JSON

A compact layout without blanks, and a layout with one item per line and two spaces per level. In a
text only quotes, backslashes and control characters are escaped.
-/

namespace CodeImpact.Json

/-- A character inside a quoted text. -/
def escapeChar (c : Char) : List Char :=
  if c = '\"' then ['\\', '\"']
  else if c = '\\' then ['\\', '\\']
  else if c = '\x08' then ['\\', 'b']
  else if c = '\t' then ['\\', 't']
  else if c = '\n' then ['\\', 'n']
  else if c = '\x0c' then ['\\', 'f']
  else if c = '\r' then ['\\', 'r']
  else if c.toNat < 32 then ['\\', 'u', '0', '0'] ++ Digest.hexByte (UInt8.ofNat c.toNat)
  else [c]

def quote (s : String) : List Char :=
  '\"' :: s.toList.flatMap escapeChar ++ ['\"']

mutual

def compactChars : Json → List Char
  | .null => "null".toList
  | .bool true => "true".toList
  | .bool false => "false".toList
  | .int n => n.repr.toList
  | .real text => text.toList
  | .str s => quote s
  | .arr items => '[' :: compactItems items
  | .obj fields => '\x7b' :: compactFields fields

/-- The items of a list and its closing bracket. -/
def compactItems : List Json → List Char
  | [] => [']']
  | [v] => compactChars v ++ [']']
  | v :: rest => compactChars v ++ ',' :: compactItems rest

/-- The fields of an object and its closing brace. -/
def compactFields : List (String × Json) → List Char
  | [] => ['\x7d']
  | [(name, v)] => quote name ++ ':' :: compactChars v ++ ['\x7d']
  | (name, v) :: rest => quote name ++ ':' :: compactChars v ++ ',' :: compactFields rest

end

/-- A line break and the indentation of a level. -/
def newLine (level : Nat) : List Char :=
  '\n' :: List.replicate (2 * level) ' '

mutual

/-- The layout with one item per line; inner lines are indented by `level` steps. -/
def prettyChars (level : Nat) : Json → List Char
  | .null => "null".toList
  | .bool true => "true".toList
  | .bool false => "false".toList
  | .int n => n.repr.toList
  | .real text => text.toList
  | .str s => quote s
  | .arr [] => ['[', ']']
  | .arr (v :: rest) => '[' :: newLine (level + 1) ++ prettyItems level (v :: rest)
  | .obj [] => ['\x7b', '\x7d']
  | .obj (f :: rest) => '\x7b' :: newLine (level + 1) ++ prettyFields level (f :: rest)

/-- The items of a list and its closing bracket. -/
def prettyItems (level : Nat) : List Json → List Char
  | [] => [']']
  | [v] => prettyChars (level + 1) v ++ newLine level ++ [']']
  | v :: rest => prettyChars (level + 1) v ++ ',' :: newLine (level + 1) ++ prettyItems level rest

/-- The fields of an object and its closing brace. -/
def prettyFields (level : Nat) : List (String × Json) → List Char
  | [] => ['\x7d']
  | [(name, v)] =>
    quote name ++ ':' :: ' ' :: prettyChars (level + 1) v ++ newLine level ++ ['\x7d']
  | (name, v) :: rest =>
    quote name ++ ':' :: ' ' :: prettyChars (level + 1) v ++ ',' :: newLine (level + 1) ++
      prettyFields level rest

end

/-- The text without blanks between tokens. -/
def compact (v : Json) : String :=
  String.ofList v.compactChars

/-- The text with one item per line. -/
def pretty (v : Json) : String :=
  String.ofList (v.prettyChars 0)

end CodeImpact.Json

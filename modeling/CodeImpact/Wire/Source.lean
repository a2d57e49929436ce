import CodeImpact.Chain
import CodeImpact.Declaration
import CodeImpact.Digest.Hex
import CodeImpact.Json.Basic
import CodeImpact.Scope
import CodeImpact.Source.Language

/-!
# Sources, scopes and declarations as JSON

The words of the enumerations, and the forms of frames, links, parameters, positions and syntax
trees. A tree is written flat: five numbers per node in document order, which are the kind, the role,
the byte range and the number of children.
-/

namespace CodeImpact

/-- The member of a list whose word is the text. -/
def ofWord? {α : Type} (all : List α) (word : α → String) (v : Json) : Option α :=
  v.asText?.bind fun text => all.find? fun a => word a = text

def Language.ofJson? (v : Json) : Option Language :=
  ofWord? Language.all Language.name v

namespace ScopeKind

def all : List ScopeKind :=
  [.file, .classType, .interfaceType, .enumType, .function, .method, .aliasType]

def word : ScopeKind → String
  | .file => "file"
  | .classType => "class"
  | .interfaceType => "interface"
  | .enumType => "enum"
  | .function => "function"
  | .method => "method"
  | .aliasType => "alias"

end ScopeKind

namespace TypeKind

def all : List TypeKind :=
  [.classType, .interfaceType, .enumType, .aliasType]

def word : TypeKind → String
  | .classType => "class"
  | .interfaceType => "interface"
  | .enumType => "enum"
  | .aliasType => "alias"

end TypeKind

namespace LinkRole

def all : List LinkRole :=
  [.function, .member]

def word : LinkRole → String
  | .function => "FUNCTION"
  | .member => "MEMBER"

end LinkRole

namespace Frame

def toJson (f : Frame) : Json :=
  .obj [("kind", .str f.kind.word), ("name", .str f.name)]

def ofJson? (v : Json) : Option Frame := do
  let kind ← v.required? "kind" (ofWord? ScopeKind.all ScopeKind.word)
  let name ← v.required? "name" Json.asText?
  some ⟨kind, name⟩

end Frame

namespace Link

def toJson (l : Link) : Json :=
  .obj [("name", .str l.name), ("role", .str l.role.word)]

def ofJson? (v : Json) : Option Link := do
  let name ← v.required? "name" Json.asText?
  let role ← v.required? "role" (ofWord? LinkRole.all LinkRole.word)
  some ⟨name, role⟩

end Link

namespace Param

/-- The name, and the type if there is one. -/
def toJson (p : Param) : Json :=
  .obj (("name", .str p.name) :: Json.optionalField "type" (p.type.map .str))

def ofJson? (v : Json) : Option Param := do
  let name ← v.required? "name" Json.asText?
  let type ← v.optional? "type" Json.asText?
  some ⟨name, type⟩

end Param

namespace ImportedSymbol

/-- The name, and the alias if there is one. -/
def toJson (s : ImportedSymbol) : Json :=
  .obj (("name", .str s.name) :: Json.optionalField "alias" (s.renamed.map .str))

def ofJson? (v : Json) : Option ImportedSymbol := do
  let name ← v.required? "name" Json.asText?
  let renamed ← v.optional? "alias" Json.asText?
  some ⟨name, renamed⟩

end ImportedSymbol

namespace Position

def toJson (p : Position) : Json :=
  .obj [("start_line", .nat p.startLine), ("start_col", .nat p.startCol),
    ("end_line", .nat p.endLine), ("end_col", .nat p.endCol)]

def ofJson? (v : Json) : Option Position := do
  let startLine ← v.required? "start_line" Json.asNat?
  let startCol ← v.required? "start_col" Json.asNat?
  let endLine ← v.required? "end_line" Json.asNat?
  let endCol ← v.required? "end_col" Json.asNat?
  some ⟨startLine, startCol, endLine, endCol⟩

end Position

/-- The bytes of a source, given as text or in hexadecimal. -/
def SourceText.ofJson? (v : Json) : Option SourceText :=
  match v.field? "source" with
  | some (.str text) => some ⟨text.toUTF8⟩
  | _ => do
    let hex ← v.required? "source_hex" Json.asText?
    let bytes ← Digest.bytesOfHex? hex.toList
    some ⟨⟨bytes.toArray⟩⟩

namespace Tree

/-- Groups of five numbers. -/
def fives : List Int → Option (List (Int × Int × Int × Int × Int))
  | [] => some []
  | k :: f :: s :: e :: n :: rest => (fives rest).map ((k, f, s, e, n) :: ·)
  | _ => none

/-- Puts a node in front of the forest that follows it in document order: its children are the first
trees of that forest. -/
def plant (kinds : Array (String × Bool)) (fields : Array String)
    (entry : Int × Int × Int × Int × Int) (forest : Option (List Tree)) : Option (List Tree) := do
  let forest ← forest
  let (k, f, s, e, n) := entry
  let (kind, named) ← kinds[k.toNat]?
  let size := n.toNat
  if forest.length < size then none
  else
    let field := if f < 0 then none else fields[f.toNat]?
    some (⟨kind, named, field, s.toNat, e.toNat, forest.take size⟩ :: forest.drop size)

/-- A kind and whether it is named. -/
def kindOfJson? (v : Json) : Option (String × Bool) := do
  match ← v.asList? with
  | [.str kind, .int n] => some (kind, n = 1)
  | _ => none

def ofJson? (v : Json) : Option Tree := do
  let kinds ← v.required? "kinds" (Json.listOf? kindOfJson?)
  let fields ← v.required? "fields" (Json.listOf? Json.asText?)
  let numbers ← v.required? "nodes" (Json.listOf? fun
    | .int n => some n
    | _ => none)
  let entries ← fives numbers
  match ← entries.foldr (plant kinds.toArray fields.toArray) (some []) with
  | [t] => some t
  | _ => none

end Tree

end CodeImpact

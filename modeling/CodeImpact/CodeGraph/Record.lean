import CodeImpact.Declaration
import CodeImpact.Scope
import CodeImpact.Source.Language
import CodeImpact.Table

/-!
# Records of a code graph

What is known about each file, type, function, import and call after names are resolved.
-/

namespace CodeImpact

/-- An import with the file its origin resolves to. -/
structure ImportRecord where
  nodeId : String
  /-- The origin as written. -/
  origin : String
  symbols : List ImportedSymbol
  /-- The path of the file, or the origin if that lies outside the project. -/
  path : String
  isExternal : Bool
  line : Nat
  deriving DecidableEq, Repr, Inhabited

/-- A call with what is known about its target. -/
structure CallRecord where
  nodeId : String
  /-- The invoked name. -/
  function : String
  /-- The file of the target as far as known, or else the calling file. -/
  file : String
  /-- The receiver. -/
  caller : Option String
  /-- The type of the receiver. -/
  callerType : Option String
  line : Nat
  deriving DecidableEq, Repr, Inhabited

/-- A function or method. -/
structure FunctionRecord where
  nodeId : String
  /-- The absolute path of its file. -/
  file : String
  name : String
  /-- Its scope with itself. -/
  scope : String
  params : List Param
  returnType : Option String
  lines : Nat
  startLine : Nat
  endLine : Nat
  /-- The digest of the body's tokens. -/
  functionHash : String
  /-- The digest of the parameter and result types. -/
  signatureHash : String
  calls : List CallRecord
  /-- The type that owns a method. -/
  className : Option String
  fullText : String
  deriving DecidableEq, Repr, Inhabited

namespace FunctionRecord

def key (f : FunctionRecord) : String :=
  compositeKey f.file f.scope

/-- The name with that of the owning type. -/
def displayName (f : FunctionRecord) : String :=
  match f.className with
  | some owner => owner ++ "." ++ f.name
  | none => f.name

end FunctionRecord

/-- Adds the items that are not there yet, in order. -/
def appendUnique {α : Type} [DecidableEq α] (target items : List α) : List α :=
  items.foldl (fun acc a => if a ∈ acc then acc else acc ++ [a]) target

/-- A class, interface, enumeration or alias. -/
structure TypeRecord where
  nodeId : String
  file : String
  kind : TypeKind
  name : String
  /-- Members with their signatures. -/
  fields : Table String
  /-- References to supertypes. -/
  supers : List String
  /-- References to the types that extend this one. -/
  extendedBy : List String
  /-- References to the interfaces it implements. -/
  interfaces : List String
  /-- References to the types that implement this one. -/
  implementedBy : List String
  /-- Its scope with itself. -/
  scope : String
  position : Position
  deriving DecidableEq, Inhabited

namespace TypeRecord

def key (t : TypeRecord) : String :=
  compositeKey t.file t.scope

/-- How other types refer to this one. -/
def reference (t : TypeRecord) : String :=
  compositeKey t.file t.name

/-- Adds the supertypes, interfaces and fields of a later declaration with the same key. -/
def mergeFrom (t later : TypeRecord) : TypeRecord :=
  { t with
    supers := appendUnique t.supers later.supers
    interfaces := appendUnique t.interfaces later.interfaces
    fields := later.fields.entries.foldl (fun fs (k, v) => fs.insertNew k v) t.fields }

end TypeRecord

/-- What a file contributes. -/
structure FileRecord where
  /-- The path under the project root. -/
  path : String
  absolutePath : String
  language : Language
  imports : List ImportRecord
  /-- The keys of its functions. -/
  functions : List String
  /-- The keys of its types. -/
  types : List String
  /-- Calls outside all functions. -/
  topLevelCalls : List CallRecord
  deriving DecidableEq, Repr, Inhabited

/-- A syntax node that a record refers to. -/
structure NodeRecord where
  id : String
  name : Option String
  kind : String
  /-- The first line of the node's text. -/
  text : String
  position : Position
  /-- The identifiers of the named children. -/
  children : List String
  deriving DecidableEq, Repr, Inhabited

end CodeImpact

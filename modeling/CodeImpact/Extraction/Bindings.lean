import CodeImpact.Scope
import CodeImpact.Table

/-!
# Names bound in a file

Which file a local name was imported from and under which name, which types the file declares, and
which types the members of its scopes hold.
-/

namespace CodeImpact

/-- The name tables of one file. -/
structure Bindings where
  /-- The file that a local name comes from. -/
  origins : Table String := .empty
  /-- The exported name behind a renamed local one. -/
  exportedNames : Table String := .empty
  /-- The types that members hold, both qualified by their scope. -/
  instances : Table String := .empty
  /-- The types declared in the file. -/
  types : List String := []

namespace Bindings

/-- Binds a local name to an exported name of a file. -/
def bindImport (b : Bindings) (localName exported path : String) : Bindings :=
  { b with
    origins := b.origins.insert localName path
    exportedNames :=
      if localName = exported then b.exportedNames else b.exportedNames.insert localName exported }

/-- The name that a local name has where it comes from. -/
def exportedName (b : Bindings) (localName : String) : String :=
  (b.exportedNames.get? localName).getD localName

/-- The first nonempty segment between dots and colons. -/
def firstSegment? (name : String) : Option String :=
  ((name.toList.splitOnP fun c => c = '.' || c = ':').find? fun s => !s.isEmpty).map String.ofList

/-- The file that a name comes from; a qualified name falls back to its first segment. -/
def importedPath? (b : Bindings) (name : String) : Option String :=
  (b.origins.get? name).or ((firstSegment? name).bind b.origins.get?)

def declareType (b : Bindings) (name : String) : Bindings :=
  { b with types := if name ∈ b.types then b.types else b.types ++ [name] }

def isLocalType (b : Bindings) (name : String) : Bool :=
  name ∈ b.types

/-- Records that a member of a scope holds a type. An earlier record stays unless it is to be
overwritten. -/
def recordInstance (b : Bindings) (scope : Scope) (member type : String) (overwrite : Bool) :
    Bindings :=
  let key := scope.qualify member
  if !overwrite && b.instances.contains key then b
  else { b with instances := b.instances.insert key (scope.qualify type) }

/-- The text after the last separator. -/
def lastName (text : String) : String :=
  match Text.cutLast? keySeparator.toList text.toList with
  | some (_, last) => String.ofList last
  | none => text

/-- The type recorded for a member in the scope with these frames, innermost first, or in the
nearest scope around it. -/
def instanceAround? (b : Bindings) (member : String) : List Frame → Option String
  | [] => (b.instances.get? (Scope.file.qualify member)).map lastName
  | f :: outer =>
    match b.instances.get? (Scope.qualify ⟨(f :: outer).reverse⟩ member) with
    | some value => some (lastName value)
    | none => b.instanceAround? member outer

/-- The type of a member, looked up from the scope outwards. -/
def instanceType? (b : Bindings) (scope : Scope) (member : String) : Option String :=
  b.instanceAround? member scope.frames.reverse

end Bindings

end CodeImpact

import CodeImpact.CodeGraph.Basic

/-!
# Derived types

Which types extend or implement a type, derived from what all types say they extend and implement.
-/

namespace CodeImpact.CodeGraph

/-- The keys of the types by what the types are referred to as, in key order. -/
def keysByReference (g : CodeGraph) : Table (List String) :=
  g.types.entries.foldl (fun index (key, t) =>
    index.insert t.reference ((index.get? t.reference).getD [] ++ [key])) .empty

/-- Pairs of the key of a type and the reference of a type that derives from it. -/
structure Staged where
  extendedBy : List (String × String) := []
  implementedBy : List (String × String) := []

/-- Adds a pair for each type that is referred to. A reference to no type of the project adds none. -/
def stage (index : Table (List String)) (derived : String) (pairs : List (String × String))
    (references : List String) : List (String × String) :=
  references.foldl (fun pairs reference =>
    match index.get? reference with
    | some keys => pairs ++ keys.map (·, derived)
    | none => pairs) pairs

def Staged.add (index : Table (List String)) (s : Staged) (t : TypeRecord) : Staged where
  extendedBy := stage index t.reference s.extendedBy t.supers
  implementedBy := stage index t.reference s.implementedBy t.interfaces

/-- What all types say they extend and implement, turned round. -/
def staged (g : CodeGraph) : Staged :=
  g.types.values.foldl (Staged.add g.keysByReference) {}

/-- Changes the type at the key of a pair. -/
def appendAt (add : TypeRecord → String → TypeRecord) (types : Table TypeRecord)
    (pair : String × String) : Table TypeRecord :=
  match types.get? pair.1 with
  | some t => types.insert pair.1 (add t pair.2)
  | none => types

/-- Adds the derived types to every type. -/
def finalizeRelations (g : CodeGraph) : CodeGraph :=
  let extended := g.staged.extendedBy.foldl (appendAt fun t derived =>
    { t with extendedBy := appendUnique t.extendedBy [derived] }) g.types
  { g with
    types := g.staged.implementedBy.foldl (appendAt fun t derived =>
      { t with implementedBy := appendUnique t.implementedBy [derived] }) extended }

/-- Inserts a type at its own key, or merges it into the one that is there. -/
def mergeType (g : CodeGraph) (t : TypeRecord) : CodeGraph :=
  let merged :=
    match g.types.get? t.key with
    | some earlier => earlier.mergeFrom t
    | none => t
  { g with types := g.types.insert t.key merged }

end CodeImpact.CodeGraph

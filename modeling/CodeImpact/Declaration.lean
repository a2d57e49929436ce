import CodeImpact.Source.Tree

/-!
# Declarations as written

What a grammar reads off a syntax node: imports, type declarations and functions, before names are
resolved.
-/

namespace CodeImpact

/-- The declared kind of a type. -/
inductive TypeKind
  | classType
  | interfaceType
  | enumType
  | aliasType
  deriving DecidableEq, Repr, Inhabited

/-- An imported name and the local name it gets, if another one. `*` stands for everything. -/
structure ImportedSymbol where
  name : String
  renamed : Option String
  deriving DecidableEq, Repr, Inhabited

/-- The name a symbol is bound to in the importing file. -/
def ImportedSymbol.localName (s : ImportedSymbol) : String :=
  s.renamed.getD s.name

/-- One import, with its origin as written. -/
structure ImportDecl where
  origin : String
  symbols : List ImportedSymbol
  line : Nat
  deriving DecidableEq, Repr, Inhabited

/-- A parameter with its declared type, if any. -/
structure Param where
  name : String
  type : Option String
  deriving DecidableEq, Repr, Inhabited

/-- Members of a type: all of them with their signatures, and those of a declared type with the
simple name of that type. -/
structure Members where
  fields : List (String × String) := []
  typed : List (String × String) := []
  deriving DecidableEq, Repr, Inhabited

namespace Members

instance : Append Members :=
  ⟨fun a b => ⟨a.fields ++ b.fields, a.typed ++ b.typed⟩⟩

/-- The members that the nodes declare, in order. -/
def gather (f : Tree → Members) (ts : List Tree) : Members :=
  ts.foldr (fun t rest => f t ++ rest) {}

end Members

/-- A type declaration with its supertypes as written. -/
structure TypeDecl where
  kind : TypeKind
  name : String
  /-- What the type extends. -/
  supers : List String := []
  /-- The interfaces it implements. -/
  interfaces : List String := []
  members : Members := {}
  /-- A block that adds members to a type declared elsewhere. -/
  provisional : Bool := false
  deriving DecidableEq, Repr, Inhabited

/-- A function or method. -/
structure FunctionDecl where
  name : String
  params : List Param
  returnType : Option String
  /-- Absent for a signature. -/
  body : Option Tree
  isConstructor : Bool
  deriving Repr, Inhabited

/-- The text of a signature inside a type: parameters with their types, then the result. -/
def signatureText (params : List Param) (returnType : Option String) : String :=
  let one (p : Param) : String :=
    match p.type with
    | some t => p.name ++ ": " ++ t
    | none => p.name
  "(" ++ ", ".intercalate (params.map one) ++ "):" ++ returnType.getD ""

/-- A function as a member of the type around it. -/
def FunctionDecl.member (f : FunctionDecl) : String × String :=
  (f.name, signatureText f.params f.returnType)

end CodeImpact

import CodeImpact.Grammar.Basic
import CodeImpact.Grammar.TypeName

/-!
# The grammar of Java

A method invocation names and invokes in one node. An import keeps its dotted path as origin; a
wildcard import keeps the package and binds `*`.
-/

namespace CodeImpact.Grammar.Java

/-- Constructors of classes and of records. -/
def constructorKinds : List String :=
  ["constructor_declaration", "compact_constructor_declaration"]

/-- The kind of type that a node declares. -/
def typeKind? (kind : String) : Option TypeKind :=
  if kind = "class_declaration" || kind = "record_declaration" then some .classType
  else if kind = "interface_declaration" || kind = "annotation_type_declaration" then
    some .interfaceType
  else if kind = "enum_declaration" then some .enumType
  else none

/-- The kind of frame that a node opens. -/
def frameKind? (kind : String) : Option ScopeKind :=
  if kind = "class_declaration" || kind = "record_declaration" then some .classType
  else if kind = "interface_declaration" || kind = "annotation_type_declaration" then
    some .interfaceType
  else if kind = "enum_declaration" then some .enumType
  else if kind = "method_declaration" || constructorKinds.contains kind then some .function
  else none

def frame? (src : SourceText) (t : Tree) : Option Frame :=
  (frameKind? t.kind).bind fun kind => (src.fieldText? t "name").map fun name => ⟨kind, name⟩

def receiver (kind : String) : Option Selector :=
  if kind = "method_invocation" || kind = "field_access" then some (.field "object")
  else if kind = "cast_expression" then some (.field "value")
  else if kind = "array_access" then some (.field "array")
  else if kind = "parenthesized_expression" then some .firstNamed
  else none

def step (src : SourceText) (t : Tree) : ChainStep :=
  if t.kind = "method_invocation" then
    match src.fieldText? t "name" with
    | some name => .pushInvoked name
    | none => .stop
  else if t.kind = "field_access" then
    match src.fieldText? t "field" with
    | some name => .push .member name
    | none => .stop
  else if ["identifier", "this", "super", "type_identifier"].contains t.kind then
    .push .member (src.text t)
  else if ["cast_expression", "array_access", "parenthesized_expression"].contains t.kind then
    .skip
  else .stop

/-- The import that a declaration's text states. -/
def readImport? (text : List Char) (line : Nat) : Option ImportDecl :=
  let body := Text.trimBoth (Text.dropEndWhile (· = ';')
    (Text.dropAllLeads "import".toList (Text.trimBoth text)))
  let isStatic := (Text.afterLead? "static".toList body).isSome
  let path := ((Text.afterLead? "static".toList body).getD body).filter fun c => !Text.isBlank c
  let whole (origin name : List Char) : ImportDecl :=
    ⟨String.ofList origin, [⟨String.ofList name, none⟩], line⟩
  if path = [] then none
  else
    match Text.beforeTail? ['.', '*'] path with
    | some package => some (whole package ['*'])
    | none =>
      if isStatic then
        match Text.cutLast? ['.'] path with
        | some (owner, member) => some (whole owner member)
        | none => some (whole [] path)
      else some (whole path (Text.afterLast (· = '.') path))

def imports (src : SourceText) (t : Tree) : List ImportDecl :=
  if t.kind = "import_declaration" then
    (readImport? (src.text t).toList (src.startLine t)).toList
  else []

/-- Nodes that write a type by its name. -/
def typeNameKinds : List String :=
  ["type_identifier", "generic_type", "scoped_type_identifier"]

/-- The simple names of the types under a heritage clause, lists included. -/
def typeNames (src : SourceText) (clause : Tree) : List String :=
  clause.children.attach.flatMap fun ⟨c, _⟩ =>
    if !c.named then []
    else if c.kind = "type_list" then typeNames src c
    else if typeNameKinds.contains c.kind then (TypeName.simple? (src.text c)).toList
    else []
termination_by sizeOf clause
decreasing_by exact Tree.sizeOf_lt_of_mem ‹_›

/-- The type names under the child in a role. -/
def typeNamesIn (src : SourceText) (t : Tree) (field : String) : List String :=
  ((t.child? field).map (typeNames src)).getD []

/-- One parameter; a parameter of variable length carries its name in a declarator. -/
def param? (src : SourceText) (p : Tree) : Option Param :=
  if p.kind = "formal_parameter" || p.kind = "spread_parameter" then
    let name := (src.fieldText? p "name").or
      ((p.childOfKind? "variable_declarator").bind fun d => src.fieldText? d "name")
    let type := (src.fieldText? p "type").or
      ((p.firstNamed?.filter fun n => n.kind ≠ "modifiers").map src.text)
    name.map fun name => ⟨name, type⟩
  else none

def params (src : SourceText) (t : Tree) : List Param :=
  ((t.child? "parameters").map fun list => list.namedChildren.filterMap (param? src)).getD []

/-- The function that a node declares. -/
def function? (src : SourceText) (t : Tree) : Option FunctionDecl :=
  if t.kind = "method_declaration" || constructorKinds.contains t.kind then
    (src.fieldText? t "name").map fun name =>
      { name := name
        params := params src t
        returnType := src.fieldText? t "type"
        body := t.child? "body"
        isConstructor := constructorKinds.contains t.kind }
  else none

/-- The member that a statement `this.member = new Type()` gives a type. -/
def assignedMember? (src : SourceText) (statement : Tree) : Option (String × String) := do
  let assignment ← statement.firstNamed?
  let left ← assignment.child? "left"
  let right ← assignment.child? "right"
  if statement.kind = "expression_statement" && assignment.kind = "assignment_expression" &&
      left.kind = "field_access" && src.fieldText? left "object" = some "this" &&
      right.kind = "object_creation_expression" then
    let name ← src.fieldText? left "field"
    let written ← src.fieldText? right "type"
    let type ← TypeName.simple? written
    some (name, type)
  else none

/-- What a method adds: itself, and the members that a constructor assigns. -/
def methodMembers (src : SourceText) (t : Tree) : Members :=
  match function? src t with
  | none => {}
  | some f =>
    let assigned := if f.isConstructor then (f.body.map Tree.namedChildren).getD [] else []
    ⟨[f.member], assigned.filterMap (assignedMember? src)⟩

/-- A field with its declared type. -/
def typedMember (name declared : String) : Members :=
  ⟨[(name, declared)], ((TypeName.simple? declared).map fun type => (name, type)).toList⟩

/-- What a field declaration adds: each declarator under the common type. -/
def fieldMembers (src : SourceText) (t : Tree) : Members :=
  match src.fieldText? t "type" with
  | none => {}
  | some declared =>
    Members.gather (fun d =>
      match src.fieldText? d "name" with
      | none => {}
      | some name => typedMember name declared) (t.childrenIn "declarator")

/-- The members that a body declares; the declarations of an enumeration's body count as its own. -/
def bodyMembers (src : SourceText) (body : Tree) : Members :=
  body.children.attach.foldr (fun ⟨c, _⟩ rest =>
    (if !c.named then {}
    else if c.kind = "method_declaration" || c.kind = "constructor_declaration" then
      methodMembers src c
    else if c.kind = "field_declaration" || c.kind = "constant_declaration" then
      fieldMembers src c
    else if c.kind = "enum_constant" then
      ⟨((src.fieldText? c "name").map fun name => (name, "")).toList, []⟩
    else if c.kind = "enum_body_declarations" then bodyMembers src c
    else ({} : Members)) ++ rest) {}
termination_by sizeOf body
decreasing_by exact Tree.sizeOf_lt_of_mem ‹_›

/-- What a record's component adds. -/
def componentMembers (p : Param) : Members :=
  ⟨[(p.name, p.type.getD "")],
    ((p.type.bind TypeName.simple?).map fun type => (p.name, type)).toList⟩

/-- The members of a type: a record's components, then its body. -/
def members (src : SourceText) (t : Tree) : Members :=
  (params src t).foldr (fun p rest => componentMembers p ++ rest)
    (((t.child? "body").map (bodyMembers src)).getD {})

/-- The type that a node declares. -/
def type? (src : SourceText) (t : Tree) : Option TypeDecl :=
  (typeKind? t.kind).bind fun kind =>
    (src.fieldText? t "name").map fun name =>
      { kind := kind
        name := name
        supers := typeNamesIn src t "superclass" ++
          ((t.childOfKind? "extends_interfaces").map (typeNames src)).getD []
        interfaces := typeNamesIn src t "interfaces"
        members := members src t }

end Java

def java : Grammar where
  language := .java
  selfToken := "this"
  selfNames := ["this"]
  constructorName := ""
  frame? := Java.frame?
  callKind := "method_invocation"
  receiver := Java.receiver
  step := Java.step
  imports := Java.imports
  type? := Java.type?
  function? := Java.function?

end CodeImpact.Grammar

import CodeImpact.Grammar.Script

/-!
# The grammar of TypeScript

Interfaces, enumerations, aliases and abstract classes on top of what all scripts have.
-/

namespace CodeImpact.Grammar

namespace TypeScript

/-- Classes, abstract ones included. -/
def classKinds : List String :=
  ["class_declaration", "class", "abstract_class_declaration"]

/-- The kind of frame that a type declaration opens. -/
def typeFrameKind? (kind : String) : Option ScopeKind :=
  if classKinds.contains kind then some .classType
  else if kind = "interface_declaration" then some .interfaceType
  else if kind = "enum_declaration" then some .enumType
  else none

def frame? (src : SourceText) (t : Tree) : Option Frame :=
  match typeFrameKind? t.kind with
  | some kind => (src.fieldText? t "name").map fun name => ⟨kind, name⟩
  | none => Script.functionFrame? src t

/-- The member that one node of an interface body declares. -/
def interfaceMembers (src : SourceText) (t : Tree) : Members :=
  if t.kind = "method_signature" then
    ⟨((Script.function? src t).map FunctionDecl.member).toList, []⟩
  else if t.kind = "property_signature" then
    ⟨((src.fieldText? t "name").map fun name =>
      (name, (Script.annotation? src t "type").getD "")).toList, []⟩
  else {}

/-- The member that one node of an enumeration's body declares. -/
def enumMembers (src : SourceText) (t : Tree) : Members :=
  let name :=
    if t.kind = "property_identifier" || t.kind = "string" then some (src.text t)
    else if t.kind = "enum_assignment" then src.fieldText? t "name"
    else none
  ⟨(name.map fun name => (name, "")).toList, []⟩

/-- The members that the nodes of a body declare. -/
def bodyMembers (f : Tree → Members) (t : Tree) : Members :=
  ((t.child? "body").map fun body => Members.gather f body.namedChildren).getD {}

/-- The type that a node declares. -/
def type? (src : SourceText) (t : Tree) : Option TypeDecl :=
  if classKinds.contains t.kind then Script.class? src t
  else if t.kind = "interface_declaration" then
    (src.fieldText? t "name").map fun name =>
      { kind := .interfaceType
        name := name
        supers := ((t.childOfKind? "extends_type_clause").map (Script.clauseNames src)).getD []
        members := bodyMembers (interfaceMembers src) t }
  else if t.kind = "enum_declaration" then
    (src.fieldText? t "name").map fun name =>
      { kind := .enumType
        name := name
        members := bodyMembers (enumMembers src) t }
  else if t.kind = "type_alias_declaration" then
    (src.fieldText? t "name").map fun name =>
      { kind := .aliasType
        name := name
        members := ⟨((Script.annotation? src t "value").map fun v => ("=", v)).toList, []⟩ }
  else none

end TypeScript

def typescript : Grammar where
  language := .typescript
  selfToken := "this"
  selfNames := ["this"]
  constructorName := Script.constructorName
  frame? := TypeScript.frame?
  callKind := "call_expression"
  receiver := Script.receiver
  step := Script.step
  imports := Script.imports
  type? := TypeScript.type?
  function? := Script.function?

/-- The grammar of TypeScript with embedded markup, whose trees have the same declarations. -/
def tsx : Grammar :=
  { typescript with language := .tsx }

end CodeImpact.Grammar

import CodeImpact.Grammar.Basic
import CodeImpact.Grammar.TypeName

/-!
# Script grammars

Scopes, chains, imports, classes and functions that JavaScript and TypeScript share, and the grammar
of JavaScript.
-/

namespace CodeImpact.Grammar.Script

def constructorName : String := "constructor"

/-- Expressions that are functions. -/
def functionValues : List String :=
  ["arrow_function", "function", "function_expression", "generator_function"]

/-- Declarations that name a function directly. -/
def functionKinds : List String :=
  ["function_declaration", "generator_function_declaration", "function_signature",
    "method_definition", "method_signature", "abstract_method_signature"]

/-- Methods as members of a class. -/
def methodKinds : List String :=
  ["method_definition", "method_signature", "abstract_method_signature"]

/-- Fields as members of a class. -/
def fieldKinds : List String :=
  ["public_field_definition", "field_definition"]

/-- Nodes that only wrap their first child. -/
def wrapperKinds : List String :=
  ["parenthesized_expression", "non_null_expression", "await_expression", "as_expression",
    "satisfies_expression"]

/-- The value of a declarator or field, if it is a function. -/
def functionValue? (t : Tree) : Option Tree :=
  (t.child? "value").filter fun v => functionValues.contains v.kind

/-- The name of a class field. -/
def fieldName? (src : SourceText) (t : Tree) : Option String :=
  (src.fieldText? t "name").or (src.fieldText? t "property")

/-- The name of the function that a node declares. -/
def functionName? (src : SourceText) (t : Tree) : Option String :=
  if functionKinds.contains t.kind then src.fieldText? t "name"
  else if t.kind = "variable_declarator" then do
    let _ ← functionValue? t
    let name ← t.child? "name"
    if name.kind = "identifier" then some (src.text name) else none
  else if fieldKinds.contains t.kind then do
    let _ ← functionValue? t
    fieldName? src t
  else none

/-- The frame of a function. -/
def functionFrame? (src : SourceText) (t : Tree) : Option Frame :=
  (functionName? src t).map fun name => ⟨.function, name⟩

def receiver (kind : String) : Option Selector :=
  if kind = "call_expression" then some (.field "function")
  else if kind = "member_expression" || kind = "subscript_expression" then some (.field "object")
  else if wrapperKinds.contains kind then some .firstNamed
  else none

def step (src : SourceText) (t : Tree) : ChainStep :=
  if t.kind = "call_expression" then .markInvoked
  else if t.kind = "member_expression" then
    match src.fieldText? t "property" with
    | some name => .push .member name
    | none => .stop
  else if ["identifier", "this", "super"].contains t.kind then .push .member (src.text t)
  else if wrapperKinds.contains t.kind || t.kind = "subscript_expression" then .skip
  else .stop

/-- A text without blanks and quotes at its ends. -/
def unquote (text : String) : String :=
  let isQuote c := c = '\"' || c = '\'' || c = '\x60'
  String.ofList (Text.dropEndWhile isQuote ((Text.trimBoth text.toList).dropWhile isQuote))

/-- The symbols of one part of an import clause. -/
def clauseSymbols (src : SourceText) (part : Tree) : List ImportedSymbol :=
  if part.kind = "identifier" then [⟨"default", some (src.text part)⟩]
  else if part.kind = "namespace_import" then
    ((part.childOfKind? "identifier").map fun name => ⟨"*", some (src.text name)⟩).toList
  else if part.kind = "named_imports" then
    part.namedChildren.filterMap fun spec =>
      if spec.kind = "import_specifier" then
        (src.fieldText? spec "name").map fun name => ⟨name, src.fieldText? spec "alias"⟩
      else none
  else []

/-- The symbols that a pattern binds to a required module. -/
def requiredSymbols (src : SourceText) (binding : Tree) : List ImportedSymbol :=
  if binding.kind = "identifier" then [⟨"*", some (src.text binding)⟩]
  else if binding.kind = "object_pattern" then
    binding.namedChildren.filterMap fun p =>
      if p.kind = "shorthand_property_identifier_pattern" then some ⟨src.text p, none⟩
      else if p.kind = "pair_pattern" then
        (src.fieldText? p "key").map fun key => ⟨key, src.fieldText? p "value"⟩
      else none
  else []

/-- The import of an import statement. -/
def statementImport? (src : SourceText) (t : Tree) : Option ImportDecl := do
  let origin ← t.child? "source"
  let symbols := ((t.childOfKind? "import_clause").map fun clause =>
    clause.namedChildren.flatMap (clauseSymbols src)).getD []
  some ⟨unquote (src.text origin), symbols, src.startLine t⟩

/-- The import of a declarator whose value calls `require` with a string. -/
def requireImport? (src : SourceText) (t : Tree) : Option ImportDecl := do
  let value ← t.child? "value"
  if value.kind = "call_expression" && src.fieldText? value "function" = some "require" then
    let args ← value.child? "arguments"
    let origin ← args.childOfKind? "string"
    let binding ← t.child? "name"
    some ⟨unquote (src.text origin), requiredSymbols src binding, src.startLine t⟩
  else none

def imports (src : SourceText) (t : Tree) : List ImportDecl :=
  if t.kind = "import_statement" then (statementImport? src t).toList
  else if t.kind = "variable_declarator" then (requireImport? src t).toList
  else []

/-- The simple name of a supertype: the last name of a member access, and of a generic type the name
of its base. -/
def heritageName? (src : SourceText) (t : Tree) : Option String :=
  if t.kind = "identifier" || t.kind = "type_identifier" then some (src.text t)
  else if t.kind = "member_expression" then src.fieldText? t "property"
  else if t.kind = "nested_type_identifier" then src.fieldText? t "name"
  else if t.kind = "generic_type" then
    match _h : t.child? "name" with
    | some base => heritageName? src base
    | none => none
  else none
termination_by sizeOf t
decreasing_by exact Tree.sizeOf_lt_of_mem (Tree.mem_children_of_child? _h)

/-- The simple names of the supertypes in a clause. -/
def clauseNames (src : SourceText) (clause : Tree) : List String :=
  clause.namedChildren.filterMap (heritageName? src)

/-- The parts of a class' heritage. -/
def heritage (cls : Tree) : List Tree :=
  ((cls.childOfKind? "class_heritage").map Tree.namedChildren).getD []

/-- What a class extends: the names of extends clauses and of bare expressions. -/
def supers (src : SourceText) (cls : Tree) : List String :=
  (heritage cls).flatMap fun part =>
    if part.kind = "extends_clause" then clauseNames src part
    else if part.kind = "implements_clause" then []
    else (heritageName? src part).toList

def interfaces (src : SourceText) (cls : Tree) : List String :=
  (heritage cls).flatMap fun part =>
    if part.kind = "implements_clause" then clauseNames src part else []

/-- The text of an annotation in a role. -/
def annotation? (src : SourceText) (t : Tree) (field : String) : Option String :=
  (src.fieldText? t field).map TypeName.clean

def param (src : SourceText) (p : Tree) : Param :=
  let name := ((p.child? "pattern").or (p.child? "left")).getD p
  ⟨src.text name, annotation? src p "type"⟩

/-- The parameters of a list, or the single parameter of an arrow function. -/
def paramList (src : SourceText) (params : Tree) : List Param :=
  if params.kind = "identifier" then [⟨src.text params, none⟩]
  else (params.namedChildren.filter fun p => !Text.contains "comment" p.kind).map (param src)

/-- The function with this name whose parameters, result and body stand in `decl`. -/
def functionIn (src : SourceText) (name : String) (decl : Tree) : FunctionDecl where
  name := name
  params := (((decl.child? "parameters").or (decl.child? "parameter")).map (paramList src)).getD []
  returnType := annotation? src decl "return_type"
  body := decl.child? "body"
  isConstructor := name = constructorName

/-- The function that a node declares. -/
def function? (src : SourceText) (t : Tree) : Option FunctionDecl :=
  (functionName? src t).bind fun name =>
    if t.kind = "variable_declarator" || fieldKinds.contains t.kind then
      (functionValue? t).map (functionIn src name)
    else some (functionIn src name t)

/-- The type that a `new` expression constructs. -/
def constructedType? (src : SourceText) (value : Tree) : Option String :=
  if value.kind = "new_expression" then (value.child? "constructor").bind (heritageName? src)
  else none

/-- The member that a statement `this.member = new Type()` gives a type. -/
def assignedMember? (src : SourceText) (statement : Tree) : Option (String × String) := do
  let assignment ← statement.firstNamed?
  let left ← assignment.child? "left"
  let right ← assignment.child? "right"
  let object ← left.child? "object"
  if statement.kind = "expression_statement" && assignment.kind = "assignment_expression" &&
      left.kind = "member_expression" && object.kind = "this" then
    let name ← src.fieldText? left "property"
    let type ← constructedType? src right
    some (name, type)
  else none

/-- What a method adds: itself, and the members that a constructor assigns. -/
def methodMembers (src : SourceText) (t : Tree) : Members :=
  match function? src t with
  | none => {}
  | some f =>
    let assigned := if f.isConstructor then (f.body.map Tree.namedChildren).getD [] else []
    ⟨[f.member], assigned.filterMap (assignedMember? src)⟩

/-- What a field adds: its annotation, and the type it declares or is initialised with. -/
def fieldMembers (src : SourceText) (t : Tree) : Members :=
  match fieldName? src t with
  | none => {}
  | some name =>
    let declared := annotation? src t "type"
    let type := (declared.bind TypeName.simple?).or
      ((t.child? "value").bind (constructedType? src))
    ⟨[(name, declared.getD "")], (type.map fun type => (name, type)).toList⟩

/-- The members that one node of a class body declares. -/
def classMembers (src : SourceText) (t : Tree) : Members :=
  if methodKinds.contains t.kind then methodMembers src t
  else if fieldKinds.contains t.kind then fieldMembers src t
  else {}

/-- The class that a node declares. -/
def class? (src : SourceText) (t : Tree) : Option TypeDecl :=
  (src.fieldText? t "name").map fun name =>
    { kind := .classType
      name := name
      supers := supers src t
      interfaces := interfaces src t
      members := ((t.child? "body").map fun body =>
        Members.gather (classMembers src) body.namedChildren).getD {} }

/-- Classes as declarations and as expressions. -/
def classKinds : List String :=
  ["class_declaration", "class"]

end Script

def javascript : Grammar where
  language := .javascript
  selfToken := "this"
  selfNames := ["this"]
  constructorName := Script.constructorName
  frame? src t :=
    if Script.classKinds.contains t.kind then
      (src.fieldText? t "name").map fun name => ⟨.classType, name⟩
    else Script.functionFrame? src t
  callKind := "call_expression"
  receiver := Script.receiver
  step := Script.step
  imports := Script.imports
  type? src t := if Script.classKinds.contains t.kind then Script.class? src t else none
  function? := Script.function?

end CodeImpact.Grammar

import CodeImpact.Grammar.Basic
import CodeImpact.Grammar.TypeName

/-!
# The grammar of Python

Classes that derive directly from `ABC` or `Protocol` are interfaces; all other bases are supertypes.
Members get types from annotations and from what a constructor assigns to `self`.
-/

namespace CodeImpact.Grammar.Python

def constructorName : String := "__init__"

/-- The words for the current instance and the current class. -/
def selfNames : List String := ["self", "cls"]

/-- Bases that make a class an interface. -/
def interfaceMarkers : List String := ["ABC", "Protocol"]

/-- Bases that say nothing about the type. -/
def ignoredBases : List String := ["object", "Generic", "NamedTuple", "TypedDict"]

/-- A name assigned to a lambda, with the lambda. -/
def namedLambda? (src : SourceText) (t : Tree) : Option (String × Tree) := do
  let left ← t.child? "left"
  let right ← t.child? "right"
  if left.kind = "identifier" && right.kind = "lambda" then some (src.text left, right) else none

def frame? (src : SourceText) (t : Tree) : Option Frame :=
  if t.kind = "class_definition" then
    (src.fieldText? t "name").map fun name => ⟨.classType, name⟩
  else if t.kind = "function_definition" then
    (src.fieldText? t "name").map fun name => ⟨.function, name⟩
  else if t.kind = "assignment" then
    (namedLambda? src t).map fun (name, _) => ⟨.function, name⟩
  else none

def receiver (kind : String) : Option Selector :=
  if kind = "call" then some (.field "function")
  else if kind = "attribute" then some (.field "object")
  else if kind = "subscript" then some (.field "value")
  else if kind = "parenthesized_expression" || kind = "await" then some .firstNamed
  else none

def step (src : SourceText) (t : Tree) : ChainStep :=
  if t.kind = "call" then .markInvoked
  else if t.kind = "attribute" then
    match src.fieldText? t "attribute" with
    | some name => .push .member name
    | none => .stop
  else if t.kind = "identifier" then .push .member (src.text t)
  else if ["subscript", "parenthesized_expression", "await"].contains t.kind then .skip
  else .stop

/-- The text after the last dot. -/
def afterDots (text : String) : String :=
  String.ofList (Text.afterLast (· = '.') text.toList)

/-- A module import: it binds the alias, or else the first segment of the module's name. -/
def moduleImport? (src : SourceText) (line : Nat) (item : Tree) : Option ImportDecl :=
  let bound (origin : String) (renamed : Option String) : ImportDecl :=
    let first := String.ofList (origin.toList.takeWhile (· ≠ '.'))
    ⟨origin, [⟨"*", some (renamed.getD first)⟩], line⟩
  if item.kind = "dotted_name" then some (bound (src.text item) none)
  else if item.kind = "aliased_import" then
    (src.fieldText? item "name").map fun name => bound name (src.fieldText? item "alias")
  else none

/-- A symbol of a from-import. -/
def importedSymbol? (src : SourceText) (item : Tree) : Option ImportedSymbol :=
  if item.kind = "dotted_name" then some ⟨src.text item, none⟩
  else if item.kind = "aliased_import" then
    (src.fieldText? item "name").map fun name => ⟨name, src.fieldText? item "alias"⟩
  else none

def imports (src : SourceText) (t : Tree) : List ImportDecl :=
  if t.kind = "import_statement" then
    t.namedChildren.filterMap (moduleImport? src (src.startLine t))
  else if t.kind = "import_from_statement" then
    ((src.fieldText? t "module_name").map fun origin =>
      let listed := (t.childrenIn "name").filterMap (importedSymbol? src)
      let everything :=
        if t.namedChildren.any (·.kind = "wildcard_import") then [⟨"*", none⟩] else []
      ⟨origin, listed ++ everything, src.startLine t⟩).toList
  else []

def baseName? (src : SourceText) (base : Tree) : Option String :=
  if base.kind = "identifier" then some (src.text base)
  else if base.kind = "attribute" then src.fieldText? base "attribute"
  else if base.kind = "subscript" then (src.fieldText? base "value").map afterDots
  else none

def baseNames (src : SourceText) (t : Tree) : List String :=
  ((t.child? "superclasses").map fun bases =>
    bases.namedChildren.filterMap (baseName? src)).getD []

/-- An annotation in a role. -/
def annotation? (src : SourceText) (t : Tree) (field : String) : Option String :=
  (src.fieldText? t field).map TypeName.clean

def param? (src : SourceText) (p : Tree) : Option Param :=
  if p.kind = "identifier" then some ⟨src.text p, none⟩
  else if p.kind = "typed_parameter" then
    p.firstNamed?.map fun name => ⟨src.text name, annotation? src p "type"⟩
  else if p.kind = "default_parameter" then
    (src.fieldText? p "name").map fun name => ⟨name, none⟩
  else if p.kind = "typed_default_parameter" then
    (src.fieldText? p "name").map fun name => ⟨name, annotation? src p "type"⟩
  else if p.kind = "list_splat_pattern" || p.kind = "dictionary_splat_pattern" then
    some ⟨src.text p, none⟩
  else none

/-- The parameters under a node, without the receiver. -/
def params (src : SourceText) (t : Tree) : List Param :=
  ((t.child? "parameters").map fun list =>
    (list.namedChildren.filterMap (param? src)).filter
      fun p => !selfNames.contains p.name).getD []

/-- The function that a node declares. -/
def function? (src : SourceText) (t : Tree) : Option FunctionDecl :=
  if t.kind = "function_definition" then
    (src.fieldText? t "name").map fun name =>
      { name := name
        params := params src t
        returnType := annotation? src t "return_type"
        body := t.child? "body"
        isConstructor := name = constructorName }
  else if t.kind = "assignment" then
    (namedLambda? src t).map fun (name, lambda) =>
      { name := name
        params := params src lambda
        returnType := none
        body := lambda.child? "body"
        isConstructor := false }
  else none

/-- The class that a call constructs: its callee's last name, if that starts with a capital. -/
def constructedType? (src : SourceText) (value : Tree) : Option String :=
  if value.kind = "call" then
    (src.fieldText? value "function").bind fun callee =>
      let name := afterDots callee
      if name.toList.head?.any Text.isUppercase then some name else none
  else none

/-- The member that a statement `self.member = Type()` gives a type; an annotation wins. -/
def assignedMember? (src : SourceText) (statement : Tree) : Option (String × String) := do
  let assignment ← statement.firstNamed?
  let left ← assignment.child? "left"
  if statement.kind = "expression_statement" && assignment.kind = "assignment" &&
      left.kind = "attribute" && src.fieldText? left "object" = some "self" then
    let name ← src.fieldText? left "attribute"
    let declared := (src.fieldText? assignment "type").bind TypeName.simple?
    let constructed := (assignment.child? "right").bind (constructedType? src)
    let type ← declared.or constructed
    some (name, type)
  else none

/-- What a method adds: itself, and the members that a constructor assigns. -/
def methodMembers (src : SourceText) (t : Tree) : Members :=
  match function? src t with
  | none => {}
  | some f =>
    let assigned := if f.isConstructor then (f.body.map Tree.namedChildren).getD [] else []
    ⟨[f.member], assigned.filterMap (assignedMember? src)⟩

/-- The attribute that a statement of a class body assigns or declares. -/
def attribute? (src : SourceText) (statement : Tree) : Option (String × Option String) := do
  let assignment ← statement.firstNamed?
  let left ← assignment.child? "left"
  if assignment.kind = "assignment" && left.kind = "identifier" then
    some (src.text left, annotation? src assignment "type")
  else none

def attributeMembers (src : SourceText) (statement : Tree) : Members :=
  match attribute? src statement with
  | none => {}
  | some (name, declared) =>
    let type := declared.bind TypeName.simple?
    ⟨[(name, declared.getD "")], (type.map fun type => (name, type)).toList⟩

/-- The members that one statement of a class body declares; a decorator does not count. -/
def classMembers (src : SourceText) (statement : Tree) : Members :=
  let definition :=
    if statement.kind = "decorated_definition" then statement.child? "definition"
    else some statement
  match definition with
  | none => {}
  | some t =>
    if t.kind = "function_definition" then methodMembers src t
    else if t.kind = "expression_statement" then attributeMembers src t
    else {}

/-- The type that a node declares. -/
def type? (src : SourceText) (t : Tree) : Option TypeDecl :=
  if t.kind = "class_definition" then
    (src.fieldText? t "name").map fun name =>
      let bases := baseNames src t
      { kind := if bases.any interfaceMarkers.contains then .interfaceType else .classType
        name := name
        supers := bases.filter fun b => !interfaceMarkers.contains b && !ignoredBases.contains b
        members := ((t.child? "body").map fun body =>
          Members.gather (classMembers src) body.namedChildren).getD {} }
  else none

end Python

def python : Grammar where
  language := .python
  selfToken := "self"
  selfNames := Python.selfNames
  constructorName := Python.constructorName
  frame? := Python.frame?
  callKind := "call"
  receiver := Python.receiver
  step := Python.step
  imports := Python.imports
  type? := Python.type?
  function? := Python.function?

end CodeImpact.Grammar

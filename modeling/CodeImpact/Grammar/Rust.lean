import CodeImpact.Grammar.Basic
import CodeImpact.Grammar.TypeName

/-!
# The grammar of Rust

Structures and unions are classes, traits are interfaces. An implementation block opens the frame of
its self type and adds members to it; the declaration of the type decides its kind and place.
-/

namespace CodeImpact.Grammar.Rust

def constructorName : String := "new"

/-- Functions with and without a body. -/
def functionKinds : List String :=
  ["function_item", "function_signature_item"]

/-- Structures and unions. -/
def structKinds : List String :=
  ["struct_item", "union_item"]

/-- The simple name of the type that an implementation block is for. -/
def implName? (src : SourceText) (t : Tree) : Option String :=
  (src.fieldText? t "type").bind TypeName.simple?

/-- A name bound to a closure, with the closure. -/
def namedClosure? (src : SourceText) (t : Tree) : Option (String × Tree) := do
  let pattern ← t.child? "pattern"
  let value ← t.child? "value"
  if pattern.kind = "identifier" && value.kind = "closure_expression" then
    some (src.text pattern, value)
  else none

def frame? (src : SourceText) (t : Tree) : Option Frame :=
  let named (kind : ScopeKind) := (src.fieldText? t "name").map (Frame.mk kind)
  if structKinds.contains t.kind then named .classType
  else if t.kind = "enum_item" then named .enumType
  else if t.kind = "trait_item" then named .interfaceType
  else if t.kind = "impl_item" then (implName? src t).map (Frame.mk .classType)
  else if functionKinds.contains t.kind then named .function
  else if t.kind = "let_declaration" then
    (namedClosure? src t).map fun (name, _) => ⟨.function, name⟩
  else none

def receiver (kind : String) : Option Selector :=
  if kind = "call_expression" || kind = "generic_function" then some (.field "function")
  else if kind = "field_expression" || kind = "reference_expression" then some (.field "value")
  else if kind = "scoped_identifier" then some (.field "path")
  else if ["try_expression", "await_expression", "parenthesized_expression",
      "index_expression"].contains kind then some .firstNamed
  else none

def step (src : SourceText) (t : Tree) : ChainStep :=
  if t.kind = "call_expression" then .markInvoked
  else if t.kind = "field_expression" then
    match src.fieldText? t "field" with
    | some name => .push .member name
    | none => .stop
  else if t.kind = "scoped_identifier" then
    match src.fieldText? t "name" with
    | some name => .push .member name
    | none => .stop
  else if ["identifier", "self", "type_identifier", "field_identifier"].contains t.kind then
    .push .member (src.text t)
  else if ["crate", "super", "generic_function", "try_expression", "await_expression",
      "parenthesized_expression", "reference_expression", "index_expression"].contains t.kind then
    .skip
  else .stop

/-- The text between two segments of a path. -/
def pathSeparator : List Char := [':', ':']

/-- A path under another one; an empty one adds nothing. -/
def joinPath (base rest : String) : String :=
  if base.isEmpty then rest else base ++ "::" ++ rest

/-- The last segment of a path. -/
def lastSegment (path : String) : String :=
  match Text.cutLast? pathSeparator path.toList with
  | some (_, last) => String.ofList last
  | none => path

/-- A path that is imported under its last segment, or under an alias. -/
def useLeaf (path : String) (renamed : Option String) : String × ImportedSymbol :=
  (path, ⟨lastSegment path, renamed⟩)

/-- The paths that a use tree imports under a base path, in document order. -/
def flattenUse (src : SourceText) (base : String) (t : Tree) : List (String × ImportedSymbol) :=
  if ["identifier", "scoped_identifier", "crate", "super"].contains t.kind then
    [useLeaf (joinPath base (src.text t)) none]
  else if t.kind = "self" then
    if base.isEmpty then [] else [useLeaf base none]
  else if t.kind = "use_as_clause" then
    ((src.fieldText? t "path").map fun path =>
      useLeaf (joinPath base path) (src.fieldText? t "alias")).toList
  else if t.kind = "use_wildcard" then
    let path := String.ofList (Text.dropAllTails pathSeparator
      (Text.dropEndWhile (· = '*') (src.text t).toList))
    [(if path.isEmpty then base else joinPath base path, ⟨"*", none⟩)]
  else if t.kind = "scoped_use_list" then
    let next := ((src.fieldText? t "path").map (joinPath base)).getD base
    match _h : t.child? "list" with
    | some list => flattenUse src next list
    | none => []
  else if t.kind = "use_list" then
    t.children.attach.flatMap fun ⟨c, _⟩ => if c.named then flattenUse src base c else []
  else []
termination_by sizeOf t
decreasing_by
  · exact Tree.sizeOf_lt_of_mem (Tree.mem_children_of_child? _h)
  · exact Tree.sizeOf_lt_of_mem ‹_›

def imports (src : SourceText) (t : Tree) : List ImportDecl :=
  if t.kind = "use_declaration" then
    (((t.child? "argument").map (flattenUse src "")).getD []).map fun (origin, symbol) =>
      ⟨origin, [symbol], src.startLine t⟩
  else []

/-- One parameter; a receiver is none. -/
def param? (src : SourceText) (p : Tree) : Option Param :=
  if p.kind = "parameter" then
    (src.fieldText? p "pattern").map fun name => ⟨name, src.fieldText? p "type"⟩
  else if p.kind = "identifier" then some ⟨src.text p, none⟩
  else none

def params (src : SourceText) (t : Tree) : List Param :=
  ((t.child? "parameters").map fun list => list.namedChildren.filterMap (param? src)).getD []

/-- The function that a node declares. -/
def function? (src : SourceText) (t : Tree) : Option FunctionDecl :=
  if functionKinds.contains t.kind then
    (src.fieldText? t "name").map fun name =>
      { name := name
        params := params src t
        returnType := src.fieldText? t "return_type"
        body := t.child? "body"
        isConstructor := name = constructorName }
  else if t.kind = "let_declaration" then
    (namedClosure? src t).map fun (name, closure) =>
      { name := name
        params := params src closure
        returnType := src.fieldText? closure "return_type"
        body := closure.child? "body"
        isConstructor := false }
  else none

/-- A field with its declared type. -/
def typedMember (name declared : String) : Members :=
  ⟨[(name, declared)], ((TypeName.simple? declared).map fun type => (name, type)).toList⟩

/-- A field of a structure. -/
def fieldMembers (src : SourceText) (t : Tree) : Members :=
  match src.fieldText? t "name", src.fieldText? t "type" with
  | some name, some declared =>
    if t.kind = "field_declaration" then typedMember name declared else {}
  | _, _ => {}

/-- The fields of a structure; those of a tuple are numbered from zero. -/
def structMembers (src : SourceText) (body : Tree) : Members :=
  if body.kind = "field_declaration_list" then
    Members.gather (fieldMembers src) body.namedChildren
  else if body.kind = "ordered_field_declaration_list" then
    (body.childrenIn "type").zipIdx.foldr
      (fun (t, i) rest => typedMember (Nat.repr i) (src.text t) ++ rest) {}
  else {}

/-- A variant of an enumeration. -/
def variantMembers (src : SourceText) (t : Tree) : Members :=
  if t.kind = "enum_variant" then
    ⟨((src.fieldText? t "name").map fun name => (name, "")).toList, []⟩
  else {}

/-- A function in the body of a trait or an implementation block. -/
def methodMembers (src : SourceText) (t : Tree) : Members :=
  ⟨((function? src t).map FunctionDecl.member).toList, []⟩

/-- The members that the nodes of a body declare. -/
def bodyMembers (f : Tree → Members) (t : Tree) : Members :=
  ((t.child? "body").map fun body => Members.gather f body.namedChildren).getD {}

/-- The traits that a trait requires. -/
def bounds (src : SourceText) (t : Tree) : List String :=
  ((t.child? "bounds").map fun bs =>
    (bs.namedChildren.filter fun b => b.kind ≠ "lifetime").filterMap fun b =>
      TypeName.simple? (src.text b)).getD []

/-- The type that a node declares, or adds members to. -/
def type? (src : SourceText) (t : Tree) : Option TypeDecl :=
  let named (decl : String → TypeDecl) := (src.fieldText? t "name").map decl
  if structKinds.contains t.kind then
    named fun name =>
      { kind := .classType
        name := name
        members := ((t.child? "body").map (structMembers src)).getD {} }
  else if t.kind = "enum_item" then
    named fun name =>
      { kind := .enumType
        name := name
        members := bodyMembers (variantMembers src) t }
  else if t.kind = "trait_item" then
    named fun name =>
      { kind := .interfaceType
        name := name
        supers := bounds src t
        members := bodyMembers (methodMembers src) t }
  else if t.kind = "impl_item" then
    (implName? src t).map fun name =>
      { kind := .classType
        name := name
        interfaces := ((src.fieldText? t "trait").bind TypeName.simple?).toList
        members := bodyMembers (methodMembers src) t
        provisional := true }
  else if t.kind = "type_item" then
    named fun name =>
      { kind := .aliasType
        name := name
        members := ⟨((src.fieldText? t "type").map fun v => ("=", v)).toList, []⟩ }
  else none

end Rust

def rust : Grammar where
  language := .rust
  selfToken := "self"
  selfNames := ["self", "Self"]
  constructorName := Rust.constructorName
  frame? := Rust.frame?
  callKind := "call_expression"
  receiver := Rust.receiver
  step := Rust.step
  imports := Rust.imports
  type? := Rust.type?
  function? := Rust.function?

end CodeImpact.Grammar

import CodeImpact.CodeGraph.Record
import CodeImpact.Digest.Sha256
import CodeImpact.Extraction.Bindings
import CodeImpact.Extraction.Memo
import CodeImpact.Grammar.TypeName

/-!
# Extraction

What one parsed file contributes to a code graph. Imports come first, because they bind names; then
types and functions, which say what members hold; then calls, which need all of that.
-/

namespace CodeImpact

/-- Where an import origin leads. -/
structure Resolution where
  /-- The path of a file, or the origin itself. -/
  path : String
  isExternal : Bool
  deriving DecidableEq, Repr, Inhabited

/-- Where imports lead, by the origin of each and the symbols that it names. -/
structure ImportResolver where
  target : String → List ImportedSymbol → Resolution

/-- A resolver that goes by the origin alone. -/
instance : Coe (String → Resolution) ImportResolver where
  coe byOrigin := ⟨fun origin _ => byOrigin origin⟩

/-- A file to extract from. -/
structure ParsedFile where
  grammar : Grammar
  source : SourceText
  tree : Tree
  /-- The path under the project root. -/
  path : String
  absolutePath : String
  resolve : ImportResolver

/-- A type declaration before declarations with one key are merged. -/
structure ExtractedType where
  record : TypeRecord
  /-- A block that adds members to a type declared elsewhere. -/
  provisional : Bool
  deriving DecidableEq, Inhabited

/-- What a file contributes. -/
structure Extraction where
  file : FileRecord
  types : List ExtractedType
  functions : List FunctionRecord
  /-- All resolved calls in document order. -/
  calls : List CallRecord
  /-- The syntax nodes that records refer to. -/
  nodes : Table NodeRecord

def Tree.isComment (t : Tree) : Bool :=
  Text.contains "comment" t.kind

mutual

/-- The trimmed nonempty texts of the leaves outside comments, in document order. -/
def bodyTokens (src : SourceText) : Tree → List String
  | ⟨kind, named, field, start, stop, children⟩ =>
    let t : Tree := ⟨kind, named, field, start, stop, children⟩
    if t.isComment then []
    else if children.isEmpty then
      let token := Text.trim (src.text t)
      if token.isEmpty then [] else [token]
    else bodyTokensIn src children

def bodyTokensIn (src : SourceText) : List Tree → List String
  | [] => []
  | t :: rest => bodyTokens src t ++ bodyTokensIn src rest

end

/-- The digest of a body's tokens, so that blanks and comments do not count. -/
def functionHash (src : SourceText) (body : Option Tree) : String :=
  Digest.Sha256.hexOfText (" ".intercalate ((body.map (bodyTokens src)).getD []))

/-- The digest of the parameter types and the result type without blanks; `_` stands for a missing
type. -/
def signatureHash (params : List Param) (returnType : Option String) : String :=
  let types := params.map fun p => p.type.getD "_"
  Digest.Sha256.hexOfText
    (Text.removeBlanks ("(" ++ ",".intercalate types ++ "):" ++ returnType.getD "_"))

namespace ParsedFile

/-- The named nodes with their scopes. -/
def scopedNodes (f : ParsedFile) : List (Focus × Scope) :=
  f.grammar.recallScopes f.source f.tree.namedNodes {}

def nodeRecord (f : ParsedFile) (t : Tree) : NodeRecord where
  id := t.id f.absolutePath
  name := (t.child? "name").bind f.source.text?
  kind := t.kind
  text := Text.trim (((Text.lines (f.source.text t).toList).head?.map String.ofList).getD "")
  position := f.source.position t
  children := t.namedChildren.map (Tree.id f.absolutePath)

/-- The import that a declaration states. -/
def importRecord (f : ParsedFile) (t : Tree) (d : ImportDecl) : ImportRecord :=
  let target := f.resolve.target d.origin d.symbols
  { nodeId := t.id f.absolutePath
    origin := d.origin
    symbols := d.symbols
    path := target.path
    isExternal := target.isExternal
    line := d.line }

/-- The nodes that import, with their imports. -/
def importsByNode (f : ParsedFile) (nodes : List (Focus × Scope)) :
    List (Tree × List ImportRecord) :=
  nodes.filterMap fun (focus, _) =>
    match f.grammar.imports f.source focus.node with
    | [] => none
    | decls => some (focus.node, decls.map (f.importRecord focus.node))

/-- Binds the names of an import; a bare `*` binds nothing. -/
def bindSymbols (b : Bindings) (r : ImportRecord) : Bindings :=
  r.symbols.foldl (fun b s =>
    if s.localName = "*" then b else b.bindImport s.localName s.name r.path) b

/-- A reference to a supertype as written: to the file it is imported from, or to this file. -/
def typeReference (f : ParsedFile) (b : Bindings) (raw : String) : String :=
  let simple := String.ofList (Text.afterLast (fun c => c = '.' || c = ':') raw.toList)
  match b.importedPath? raw with
  | some path => compositeKey path (b.exportedName simple)
  | none => compositeKey f.absolutePath simple

/-- The scope of a type; one that opens no frame gets a frame for its key. -/
def typeScope (f : ParsedFile) (t : Tree) (scope : Scope) (d : TypeDecl) : Scope :=
  if (f.grammar.frame? f.source t).isSome then scope else scope.push ⟨.aliasType, d.name⟩

/-- The type declarations with their nodes and scopes. -/
def typeDecls (f : ParsedFile) (nodes : List (Focus × Scope)) : List (Tree × Scope × TypeDecl) :=
  nodes.filterMap fun (focus, scope) =>
    (f.grammar.type? f.source focus.node).map fun d =>
      (focus.node, f.typeScope focus.node scope d, d)

def typeRecord (f : ParsedFile) (b : Bindings) (t : Tree) (scope : Scope) (d : TypeDecl) :
    ExtractedType where
  record :=
    { nodeId := t.id f.absolutePath
      file := f.absolutePath
      kind := d.kind
      name := d.name
      fields := Table.ofListFirst d.members.fields
      supers := appendUnique [] (d.supers.map (f.typeReference b))
      extendedBy := []
      interfaces := appendUnique [] (d.interfaces.map (f.typeReference b))
      implementedBy := []
      scope := scope.chain
      position := f.source.position t }
  provisional := d.provisional

/-- Declares a type and what its members hold. -/
def bindType (b : Bindings) (scope : Scope) (d : TypeDecl) : Bindings :=
  d.members.typed.foldl (fun b (member, type) => b.recordInstance scope member type false)
    (b.declareType d.name)

/-- The functions with their nodes and scopes. -/
def functionDecls (f : ParsedFile) (nodes : List (Focus × Scope)) :
    List (Tree × Scope × FunctionDecl) :=
  nodes.filterMap fun (focus, scope) =>
    (f.grammar.function? f.source focus.node).map fun d => (focus.node, scope, d)

/-- Records that the members named by a constructor's parameters hold their types. -/
def bindConstructor (b : Bindings) (scope : Scope) (d : FunctionDecl) : Bindings :=
  if d.isConstructor then
    d.params.foldl (fun b p =>
      match p.type.bind TypeName.simple? with
      | some type => b.recordInstance scope.withoutInnermostFunction p.name type true
      | none => b) b
  else b

/-- The type that owns a method. -/
def ownerName? (scope : Scope) : Option String :=
  if scope.innermost?.any (·.kind = .method) then
    scope.withoutInnermostFunction.innermost?.map (·.name)
  else none

/-- The record of a function, without its calls. -/
def functionRecord (f : ParsedFile) (t : Tree) (scope : Scope) (d : FunctionDecl) :
    FunctionRecord :=
  let position := f.source.position t
  { nodeId := t.id f.absolutePath
    file := f.absolutePath
    name := d.name
    scope := scope.chain
    params := d.params
    returnType := d.returnType
    lines := position.endLine - position.startLine + 1
    startLine := position.startLine
    endLine := position.endLine
    functionHash := CodeImpact.functionHash f.source d.body
    signatureHash := CodeImpact.signatureHash d.params d.returnType
    calls := []
    className := ownerName? scope
    fullText := f.source.text t }

/-- The receiver of a call, its type and the target's file. -/
structure Target where
  caller : Option String
  callerType : Option String
  file : String
  deriving DecidableEq, Repr, Inhabited

/-- The file that declares a type, as far as known. -/
def fileOfType (f : ParsedFile) (b : Bindings) (type : String) : String :=
  (b.importedPath? type).getD f.absolutePath

def startsUppercase (name : String) : Bool :=
  name.toList.head?.any Text.isUppercase

/-- The target of a call on a named receiver: a member with a known type, an imported name, a type
of the file, or anything else. -/
def receiverTarget (f : ParsedFile) (b : Bindings) (around : Scope) (name : String) : Target :=
  match b.instanceType? around name with
  | some type => ⟨some name, some type, f.fileOfType b type⟩
  | none =>
    match b.importedPath? name with
    | some path =>
      let exported := b.exportedName name
      ⟨some name, if startsUppercase exported then some exported else none, path⟩
    | none => ⟨some name, if b.isLocalType name then some name else none, f.absolutePath⟩

/-- The target of a call on the current instance: a member of it, or a method of the enclosing
type. -/
def selfTarget (f : ParsedFile) (b : Bindings) (around : Scope) : List Link → Target
  | member :: _ =>
    match b.instanceType? around member.name with
    | some type => ⟨some member.name, some type, f.fileOfType b type⟩
    | none => ⟨some member.name, none, f.absolutePath⟩
  | [] => ⟨around.enclosingType?, around.enclosingType?, f.absolutePath⟩

/-- The target of a call with these receivers, outermost first. -/
def target (f : ParsedFile) (b : Bindings) (around : Scope) (function : String) :
    List Link → Target
  | [] => ⟨none, none, (b.importedPath? function).getD f.absolutePath⟩
  | first :: rest =>
    if f.grammar.isSelfReference first.name then f.selfTarget b around rest
    else f.receiverTarget b around first.name

/-- The call with this chain, if the chain ends in an invoked name. -/
def callRecord? (f : ParsedFile) (b : Bindings) (t : Tree) (scope : Scope) (links : List Link) :
    Option CallRecord :=
  (splitChain? links).map fun (callers, function) =>
    let target := f.target b scope.withoutInnermostFunction function.name callers
    { nodeId := t.id f.absolutePath
      function := function.name
      file := target.file
      caller := target.caller
      callerType := target.callerType
      line := f.source.startLine t }

/-- The calls with their scopes and chains; chains are remembered from one call to the next. -/
def callSites (f : ParsedFile) :
    List (Focus × Scope) → ChainMemo → List (Tree × Scope × List Link)
  | [], _ => []
  | (focus, scope) :: rest, memo =>
    if f.grammar.isCall focus.node then
      let (links, memo) := f.grammar.recallChain f.source f.absolutePath focus.node memo
      (focus.node, scope, links) :: f.callSites rest memo
    else f.callSites rest memo

/-- A resolved call with its node and the key of the function around it. -/
structure OwnedCall where
  node : Tree
  owner : Option String
  record : CallRecord

/-- The resolved calls. -/
def ownedCalls (f : ParsedFile) (b : Bindings) (nodes : List (Focus × Scope)) : List OwnedCall :=
  (f.callSites nodes {}).filterMap fun (t, scope, links) =>
    (f.callRecord? b t scope links).map fun record =>
      ⟨t, scope.enclosingFunction?.map (·.key f.absolutePath), record⟩

/-- The number of the last function with this key. -/
def lastWithKey? (functions : List FunctionRecord) (key : String) : Option Nat :=
  ((functions.zipIdx.filter fun (fn, _) => fn.key = key).getLast?).map (·.2)

/-- The number of the function that a call belongs to; none at top level. -/
def ownerIndex? (functions : List FunctionRecord) (c : OwnedCall) : Option Nat :=
  c.owner.bind (lastWithKey? functions)

/-- Everything a file contributes. -/
def extract (f : ParsedFile) : Extraction :=
  let nodes := f.scopedNodes
  let imports := f.importsByNode nodes
  let records := imports.flatMap (·.2)
  let b := records.foldl bindSymbols {}
  let typeDecls := f.typeDecls nodes
  let types := typeDecls.map fun (t, scope, d) => f.typeRecord b t scope d
  let functionDecls := f.functionDecls nodes
  let functions := functionDecls.map fun (t, scope, d) => f.functionRecord t scope d
  let b := typeDecls.foldl (fun b (_, scope, d) => bindType b scope d) b
  let b := functionDecls.foldl (fun b (_, scope, d) => bindConstructor b scope d) b
  let calls := f.ownedCalls b nodes
  let owned := functions.zipIdx.map fun (fn, i) =>
    { fn with
      calls := (calls.filter fun c => ownerIndex? functions c = some i).map (·.record) }
  let topLevel := (calls.filter fun c => (ownerIndex? functions c).isNone).map (·.record)
  let registered := imports.map (·.1) ++ typeDecls.map (·.1) ++ functionDecls.map (·.1) ++
    calls.map (·.node)
  { file :=
      { path := f.path
        absolutePath := f.absolutePath
        language := f.grammar.language
        imports := records
        functions := appendUnique [] (owned.map FunctionRecord.key)
        types := appendUnique [] (types.map fun t => t.record.key)
        topLevelCalls := topLevel }
    types := types
    functions := owned
    calls := calls.map (·.record)
    nodes := Table.ofListFirst (registered.map fun t => (t.id f.absolutePath, f.nodeRecord t)) }

end ParsedFile

end CodeImpact

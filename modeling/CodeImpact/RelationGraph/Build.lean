import CodeImpact.CodeGraph.Basic
import CodeImpact.Path.Normal
import CodeImpact.RelationGraph.Basic

/-!
# The relation graph of a code graph

Every file, type and function is a node. Edges are proposed pass by pass: heritage in both
directions, methods of types, imports, and calls. A proposed edge is kept if both ends are nodes, and
only once. Call targets are matched by name.
-/

namespace CodeImpact

/-- A proposed edge. -/
structure EdgeKey where
  source : String
  target : String
  kind : Relation
  deriving DecidableEq, Repr, Inhabited

namespace CodeGraph

/-- The path under the root of a file, or the path itself if the file is unknown. -/
def relativePath (g : CodeGraph) (path : String) : String :=
  ((g.files.get? path).map (·.path)).getD path

def fileNode (path : String) (f : FileRecord) : GraphNode :=
  ⟨path, f.path, .file, f.path, path, none⟩

def typeNode (g : CodeGraph) (key : String) (t : TypeRecord) : GraphNode :=
  let kind := if t.kind = .interfaceType then NodeKind.interface else .classLike
  ⟨key, t.name, kind, g.relativePath t.file, t.file, some t.position⟩

/-- The node of a function; only its lines are known. -/
def functionNode (g : CodeGraph) (key : String) (f : FunctionRecord) : GraphNode :=
  ⟨key, f.displayName, .function, g.relativePath f.file, f.file,
    some ⟨f.startLine, 0, f.endLine, 0⟩⟩

/-- Keeps the first node with each identifier. -/
def distinctNodes (nodes : List GraphNode) : List GraphNode :=
  nodes.foldl (fun acc n => if acc.any (·.id = n.id) then acc else acc ++ [n]) []

/-- The nodes: files, types and functions, each in key order. -/
def graphNodes (g : CodeGraph) : List GraphNode :=
  distinctNodes
    ((g.files.entries.map fun (path, f) => fileNode path f) ++
      (g.types.entries.map fun (key, t) => g.typeNode key t) ++
      (g.functions.entries.map fun (key, f) => g.functionNode key f))

/-- The keys of the types that others refer to by this text. -/
def typesNamed (g : CodeGraph) (reference : String) : List String :=
  (g.types.entries.filter fun (_, t) => t.reference = reference).map (·.1)

/-- The keys of the types that a reference means once its path is normal. -/
def typesReferredTo (g : CodeGraph) (reference : String) : List String :=
  match splitComposite? reference with
  | some (file, name) => g.typesNamed (compositeKey (Path.normalize file) name)
  | none => []

/-- The first key of a function with this display name in a file. -/
def functionNamed? (g : CodeGraph) (file name : String) : Option String :=
  (g.functions.entries.find? fun (_, f) => f.file = file && f.displayName = name).map (·.1)

/-- The two edges between a type and one it implements or extends. -/
def heritagePair (key target : String) (there back : Relation) : List EdgeKey :=
  [⟨key, target, there⟩, ⟨target, key, back⟩]

/-- The edges between a type and those it implements or extends. -/
def heritageEdges (g : CodeGraph) (key : String) (t : TypeRecord) : List EdgeKey :=
  (t.interfaces.flatMap fun r =>
    (g.typesReferredTo r).flatMap fun target =>
      heritagePair key target .implements .implementedBy) ++
  t.supers.flatMap fun r =>
    (g.typesReferredTo r).flatMap fun target => heritagePair key target .extendsType .extendedBy

/-- The key of the type that owns a method. -/
def ownerKey? (f : FunctionRecord) : Option String :=
  f.className.bind fun _ =>
    (Text.cutLast? keySeparator.toList f.scope.toList).map fun (owner, _) =>
      compositeKey f.file (String.ofList owner)

/-- The edge from a type to a method of it. -/
def methodEdges (g : CodeGraph) (key : String) (f : FunctionRecord) : List EdgeKey :=
  ((ownerKey? f).filter g.types.contains).toList.map fun owner => ⟨owner, key, .hasMethod⟩

/-- The type, or else the function, of this name in a file. -/
def importedConstruct? (g : CodeGraph) (file name : String) : Option String :=
  ((g.typesNamed (compositeKey file name)).head?).or (g.functionNamed? file name)

/-- The edges of an import to the constructs it names, or to the file if it names none. -/
def importEdges (g : CodeGraph) (isNode : String → Bool) (path : String) (r : ImportRecord) :
    List EdgeKey :=
  let target := Path.normalize r.path
  let names := (r.symbols.map (·.name)).filter (· ≠ "*")
  if r.isExternal || !isNode target then []
  else if names.isEmpty then [⟨path, target, .imports⟩]
  else names.map fun name => ⟨path, (g.importedConstruct? target name).getD target, .imports⟩

/-- Whether a call may mean a method of the caller's own class. -/
def isOwnCall (owner : String) (call : CallRecord) : Bool :=
  call.caller.all (· = owner)

/-- The function that a call means: a method of the receiver's type, of a type named like the
receiver, a function of the target file, or a method of the calling function's own class. -/
def callTarget? (g : CodeGraph) (function : Option FunctionRecord) (call : CallRecord) :
    Option String :=
  let file := Path.normalize call.file
  let method (owner : String) := g.functionNamed? file (owner ++ "." ++ call.function)
  let own := function.bind fun f =>
    (f.className.filter fun owner => isOwnCall owner call).bind fun owner =>
      g.functionNamed? f.file (owner ++ "." ++ call.function)
  (call.callerType.bind method).or ((call.caller.bind method).or
    ((g.functionNamed? file call.function).or own))

/-- The method of a type with this name. -/
def methodOf? (g : CodeGraph) (owner : TypeRecord) (name : String) : Option String :=
  let key := compositeKey owner.file (compositeKey owner.scope name)
  if g.functions.contains key then some key else none

/-- For a method of an interface, the method of that name of the first implementing type, in key
order, that has one. -/
def implementation? (g : CodeGraph) (target : String) : Option String := do
  let method ← g.functions.get? target
  let owner ← (ownerKey? method).bind g.types.get?
  if owner.kind = .interfaceType then
    (sortedSet (owner.implementedBy.flatMap g.typesReferredTo)).findSome? fun key =>
      (g.types.get? key).bind fun t => g.methodOf? t method.name
  else none

/-- The edges of a call. -/
def callEdges (g : CodeGraph) (source : String) (function : Option FunctionRecord)
    (call : CallRecord) : List EdgeKey :=
  match g.callTarget? function call with
  | none => []
  | some target =>
    ⟨source, target, .calls⟩ ::
      (g.implementation? target).toList.map fun m => ⟨source, m, .callsImplementation⟩

/-- All proposed edges in order. -/
def proposedEdges (g : CodeGraph) (isNode : String → Bool) : List EdgeKey :=
  (g.types.entries.flatMap fun (key, t) => g.heritageEdges key t) ++
  (g.functions.entries.flatMap fun (key, f) => g.methodEdges key f) ++
  (g.files.entries.flatMap fun (path, f) => f.imports.flatMap (g.importEdges isNode path)) ++
  (g.functions.entries.flatMap fun (key, f) => f.calls.flatMap (g.callEdges key (some f))) ++
  g.files.entries.flatMap fun (path, f) => f.topLevelCalls.flatMap (g.callEdges path none)

/-- The edge between two nodes. -/
def edgeBetween (nodes : List GraphNode) (k : EdgeKey) : Option GraphEdge := do
  let source ← nodes.find? (·.id = k.source)
  let target ← nodes.find? (·.id = k.target)
  some ⟨k.source, k.target, k.kind, source.filePath, target.filePath⟩

def relations (g : CodeGraph) : RelationGraph :=
  let nodes := g.graphNodes
  let isNode (id : String) := nodes.any (·.id = id)
  let kept := (g.proposedEdges isNode).filter fun k => isNode k.source && isNode k.target
  ⟨nodes, (appendUnique [] kept).filterMap (edgeBetween nodes)⟩

end CodeGraph

end CodeImpact

import CodeImpact.Extraction.Memo
import CodeImpact.Wire.Source

/-!
# What a grammar reads off each node, as JSON

One object for each named node that opens a scope, calls, imports, declares or comments.
-/

namespace CodeImpact

/-- Pairs of texts as lists of two. -/
def pairsToJson (l : List (String × String)) : Json :=
  .arr (l.map fun (a, b) => .texts [a, b])

def ImportDecl.toJson (d : ImportDecl) : Json :=
  .obj [("origin", .str d.origin), ("symbols", .arr (d.symbols.map ImportedSymbol.toJson)),
    ("line", .nat d.line)]

def TypeDecl.toJson (d : TypeDecl) : Json :=
  .obj [("kind", .str d.kind.word), ("name", .str d.name), ("extends", .texts d.supers),
    ("implements", .texts d.interfaces), ("fields", pairsToJson d.members.fields),
    ("typed_fields", pairsToJson d.members.typed), ("provisional", .bool d.provisional)]

/-- The fields of a function, with the byte range of its body. -/
def FunctionDecl.toJson (d : FunctionDecl) : Json :=
  .obj [("name", .str d.name), ("params", .arr (d.params.map Param.toJson)),
    ("return_type", .orNull (d.returnType.map .str)),
    ("body", .orNull (d.body.map fun b => .arr [.nat b.start, .nat b.stop])),
    ("is_constructor", .bool d.isConstructor)]

namespace Grammar

/-- What the grammar says about one node, and the memory of chains after it. -/
def nodeCapture (g : Grammar) (src : SourceText) (path : String) (node : Tree) (scope : Scope)
    (memo : ChainMemo) : List (String × Json) × ChainMemo :=
  let frame :=
    match g.frame? src node with
    | some f => [("frame", f.toJson), ("scope", .str scope.chain)]
    | none => []
  let (chain, memo) :=
    if g.isCall node then
      let (links, memo) := g.recallChain src path node memo
      ([("chain", .arr (links.map Link.toJson)), ("site", .str scope.chain)], memo)
    else ([], memo)
  let imports :=
    match g.imports src node with
    | [] => []
    | decls => [("imports", Json.arr (decls.map ImportDecl.toJson))]
  let type := Json.optionalField "type" ((g.type? src node).map TypeDecl.toJson)
  let function := Json.optionalField "function" ((g.function? src node).map FunctionDecl.toJson)
  let comment := if Text.contains "comment" node.kind then [("comment", Json.bool true)] else []
  (frame ++ chain ++ imports ++ type ++ function ++ comment, memo)

/-- What the grammar says about the nodes of a file. -/
def captures (g : Grammar) (src : SourceText) (path : String) :
    List (Focus × Scope) → ChainMemo → List Json
  | [], _ => []
  | (focus, scope) :: rest, memo =>
    let node := focus.node
    match g.nodeCapture src path node scope memo with
    | ([], memo) => g.captures src path rest memo
    | (fields, memo) =>
      let place := Json.arr [.str node.kind, .nat node.start, .nat node.stop]
      .obj (("node", place) :: fields) :: g.captures src path rest memo

end Grammar

end CodeImpact

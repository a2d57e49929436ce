import CodeImpact.Chain
import CodeImpact.Declaration
import CodeImpact.Scope
import CodeImpact.Source.Language

/-!
# Grammars

What a language says about the nodes of its syntax trees: which of them open a scope, call, import
or declare, and how a call is read as a chain of names.
-/

namespace CodeImpact

/-- The rules of one language. -/
structure Grammar where
  language : Language
  /-- The word for the current instance. -/
  selfToken : String
  /-- The words for the current instance or type. -/
  selfNames : List String
  /-- The name of constructors; empty if they carry the name of their type. -/
  constructorName : String
  /-- The frame a node opens. -/
  frame? : SourceText → Tree → Option Frame
  /-- The kind of nodes that call. -/
  callKind : String
  /-- The receiver of a node, by its kind. -/
  receiver : String → Option Selector
  /-- What a node does to the chain of its receiver. -/
  step : SourceText → Tree → ChainStep
  /-- The imports a node states. -/
  imports : SourceText → Tree → List ImportDecl
  /-- The type a node declares. -/
  type? : SourceText → Tree → Option TypeDecl
  /-- The function a node declares. -/
  function? : SourceText → Tree → Option FunctionDecl

namespace Grammar

def isConstructorName (g : Grammar) (name : String) : Bool :=
  !g.constructorName.isEmpty && name = g.constructorName

/-- Whether a name refers to the current instance or type. -/
def isSelfReference (g : Grammar) (name : String) : Bool :=
  g.selfNames.contains name

def isCall (g : Grammar) (t : Tree) : Bool :=
  t.kind = g.callKind

/-- The chain walk of a node: the steps of its receiver path from the leftmost atom up. -/
def walk (g : Grammar) (src : SourceText) (t : Tree) : Walk :=
  (receiverPath g.receiver t).foldr (fun n w => w.step (g.step src n)) Walk.start

/-- The chain of a call, without any memory of earlier ones. -/
def chain (g : Grammar) (src : SourceText) (t : Tree) : List Link :=
  (g.walk src t).links

/-- The scope of a node with the frame it opens itself: the frames of its ancestors, from the root
down, pushed one after the other. -/
def scopeOf (g : Grammar) (src : SourceText) (f : Focus) : Scope :=
  (((f.above.map (·.2)).reverse ++ [f.node]).filterMap (g.frame? src)).foldl Scope.push Scope.file

end Grammar

end CodeImpact

/-!
# Source text and its concrete syntax tree

A source is a sequence of bytes, which need not be valid text. Its tree labels byte ranges with
kinds; tokens are leaves, and nodes that only stand for a fixed token are not named. Positions count
lines from one and columns in bytes from zero.
-/

namespace CodeImpact

/-- A node of a concrete syntax tree. -/
structure Tree where
  /-- The grammar's name for the construct. -/
  kind : String
  /-- Whether the grammar names the construct, as opposed to a fixed token. -/
  named : Bool
  /-- The role of this node in its parent. -/
  field : Option String
  /-- The offset of the first byte. -/
  start : Nat
  /-- The offset after the last byte. -/
  stop : Nat
  /-- The parts in document order, tokens included. -/
  children : List Tree
  deriving Repr, Inhabited

namespace Tree

theorem sizeOf_lt_of_mem {t c : Tree} (h : c ∈ t.children) : sizeOf c < sizeOf t := by
  obtain ⟨kind, named, field, start, stop, children⟩ := t
  have := List.sizeOf_lt_of_mem h
  simp only [Tree.mk.sizeOf_spec] at this ⊢
  omega

def namedChildren (t : Tree) : List Tree :=
  t.children.filter (·.named)

/-- The first child in a role. -/
def child? (t : Tree) (field : String) : Option Tree :=
  t.children.find? fun c => c.field = some field

/-- All children in a role. -/
def childrenIn (t : Tree) (field : String) : List Tree :=
  t.children.filter fun c => c.field = some field

def firstNamed? (t : Tree) : Option Tree :=
  t.namedChildren.head?

/-- The first named child of this kind. -/
def childOfKind? (t : Tree) (kind : String) : Option Tree :=
  t.namedChildren.find? fun c => c.kind = kind

theorem mem_children_of_namedChildren {t c : Tree} (h : c ∈ t.namedChildren) : c ∈ t.children :=
  (List.mem_filter.1 h).1

theorem mem_children_of_child? {t c : Tree} {field : String} (h : t.child? field = some c) :
    c ∈ t.children :=
  List.mem_of_find?_eq_some h

theorem mem_children_of_firstNamed? {t c : Tree} (h : t.firstNamed? = some c) : c ∈ t.children :=
  mem_children_of_namedChildren (List.mem_of_head? h)

end Tree

/-- The bytes of a source file. -/
structure SourceText where
  bytes : ByteArray

namespace SourceText

/-- The text a node covers, if its bytes are valid. -/
def text? (src : SourceText) (t : Tree) : Option String :=
  String.fromUTF8? (src.bytes.extract t.start t.stop)

/-- The text a node covers; bytes that are not valid count as empty. -/
def text (src : SourceText) (t : Tree) : String :=
  (src.text? t).getD ""

/-- The text of the first child in a role. -/
def fieldText? (src : SourceText) (t : Tree) (field : String) : Option String :=
  (t.child? field).map src.text

/-- The bytes before an offset. -/
def bytesBefore (src : SourceText) (offset : Nat) : List UInt8 :=
  (src.bytes.extract 0 offset).toList

/-- The number of line feeds before an offset. -/
def row (src : SourceText) (offset : Nat) : Nat :=
  (src.bytesBefore offset).count 10

/-- The number of bytes between the last line feed before an offset and the offset. -/
def column (src : SourceText) (offset : Nat) : Nat :=
  ((src.bytesBefore offset).reverse.takeWhile (· != 10)).length

def startLine (src : SourceText) (t : Tree) : Nat :=
  src.row t.start + 1

end SourceText

/-- Where a node starts and ends. -/
structure Position where
  startLine : Nat
  startCol : Nat
  endLine : Nat
  endCol : Nat
  deriving DecidableEq, Repr, Inhabited

def SourceText.position (src : SourceText) (t : Tree) : Position where
  startLine := src.row t.start + 1
  startCol := src.column t.start
  endLine := src.row t.stop + 1
  endCol := src.column t.stop

/-- A node seen inside its tree. -/
structure Focus where
  /-- The node itself. -/
  node : Tree
  /-- Its ancestors, the parent first, each with the number of the child that leads to the node. -/
  above : List (Nat × Tree)
  deriving Inhabited

namespace Focus

/-- The child numbers on the way up to the root: in one tree no two nodes share them. -/
def place (f : Focus) : List Nat :=
  f.above.map (·.1)

mutual

/-- The node and all named nodes under it in document order, also those under nodes that are not
named. -/
def named : Tree → List (Nat × Tree) → List Focus
  | ⟨kind, isNamed, field, start, stop, children⟩, above =>
    let t : Tree := ⟨kind, isNamed, field, start, stop, children⟩
    let below := namedIn children 0 t above
    if isNamed then ⟨t, above⟩ :: below else below

/-- The named nodes of the children of `t` from number `i` on. -/
def namedIn : List Tree → Nat → Tree → List (Nat × Tree) → List Focus
  | [], _, _, _ => []
  | c :: rest, i, t, above => named c ((i, t) :: above) ++ namedIn rest (i + 1) t above

end

end Focus

/-- The named nodes of a tree in document order. -/
def Tree.namedNodes (t : Tree) : List Focus :=
  Focus.named t []

end CodeImpact

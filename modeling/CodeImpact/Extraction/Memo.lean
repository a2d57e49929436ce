import CodeImpact.Digest.Blake3
import CodeImpact.Grammar.Basic
import Std.Data.HashMap

/-!
# Node identifiers and remembered results

A node is identified by its file, kind and byte range. Scopes and chains of a file are remembered
while its nodes are visited, so that nodes with a common ancestor or receiver share the work.
-/

namespace CodeImpact

/-- The lowest bytes of a number, the lowest first. -/
def littleEndian : Nat → Nat → List UInt8
  | 0, _ => []
  | count + 1, n => UInt8.ofNat n :: littleEndian count (n / 256)

/-- The identifier of a node in the file at `path`: sixteen digits of a digest of the path, the kind
and the byte range. -/
def Tree.id (path : String) (t : Tree) : String :=
  let bytes := path.toUTF8.toList ++ [0] ++ t.kind.toUTF8.toList ++ littleEndian 8 t.start ++
    littleEndian 8 t.stop
  Digest.hexText ((Digest.Blake3.digest bytes).take 8)

/-- Scopes by the place of their node. -/
abbrev ScopeMemo := Std.HashMap (List Nat) Scope

/-- Chains by the identifier of their node. -/
abbrev ChainMemo := Std.HashMap String (List Link)

namespace Grammar

/-- The scope around a place with these ancestors; that of the nearest one with a frame is
remembered. -/
def scopeAround (g : Grammar) (src : SourceText) (above : List (Nat × Tree)) (memo : ScopeMemo) :
    Scope × ScopeMemo :=
  match above with
  | [] => (Scope.file, memo)
  | (_, ancestor) :: rest =>
    match g.frame? src ancestor with
    | none => g.scopeAround src rest memo
    | some frame =>
      let place := rest.map (·.1)
      match memo[place]? with
      | some scope => (scope, memo)
      | none =>
        let (outer, memo) := g.scopeAround src rest memo
        let scope := outer.push frame
        (scope, memo.insert place scope)

/-- The scope of a node with the frame it opens itself. -/
def recallScope (g : Grammar) (src : SourceText) (f : Focus) (memo : ScopeMemo) :
    Scope × ScopeMemo :=
  match memo[f.place]? with
  | some scope => (scope, memo)
  | none =>
    let (outer, memo) := g.scopeAround src f.above memo
    let scope := ((g.frame? src f.node).map outer.push).getD outer
    (scope, memo.insert f.place scope)

def recallScopes (g : Grammar) (src : SourceText) : List Focus → ScopeMemo → List (Focus × Scope)
  | [], _ => []
  | f :: rest, memo =>
    let (scope, memo) := g.recallScope src f memo
    (f, scope) :: g.recallScopes src rest memo

/-- The walk up a receiver path, started at the first node whose chain is remembered. -/
def recallWalk (g : Grammar) (src : SourceText) (path : String) :
    List Tree → ChainMemo → Walk × ChainMemo
  | [], memo => (Walk.start, memo)
  | t :: below, memo =>
    match memo[t.id path]? with
    | some links => (⟨links, false⟩, memo)
    | none =>
      let (w, memo) := g.recallWalk src path below memo
      let w := w.step (g.step src t)
      (w, memo.insert (t.id path) w.links)

def recallChain (g : Grammar) (src : SourceText) (path : String) (t : Tree) (memo : ChainMemo) :
    List Link × ChainMemo :=
  let (w, memo) := g.recallWalk src path (receiverPath g.receiver t) memo
  (w.links, memo)

end Grammar

end CodeImpact

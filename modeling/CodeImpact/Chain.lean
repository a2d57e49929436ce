import CodeImpact.Source.Tree

/-!
# Call chains

The names that lead to a call, from the leftmost receiver to the invoked function. A chain is read
off the path from the call down its receivers: the deepest node first, each node adding a step.
-/

namespace CodeImpact

/-- What a name in a chain is used for. -/
inductive LinkRole
  /-- It is invoked. -/
  | function
  /-- It is a receiver, a namespace or a property. -/
  | member
  deriving DecidableEq, Repr, Inhabited

/-- One name of a chain. -/
structure Link where
  name : String
  role : LinkRole
  deriving DecidableEq, Repr, Inhabited

/-- What a node does to the chain of its receiver. -/
inductive ChainStep
  /-- Adds a name. -/
  | push (role : LinkRole) (name : String)
  /-- Invokes the last name. -/
  | markInvoked
  /-- Adds a name and invokes it. -/
  | pushInvoked (name : String)
  /-- Adds nothing. -/
  | skip
  /-- Cannot be written as a chain of names. -/
  | stop
  deriving DecidableEq, Repr, Inhabited

/-- The chain so far; a broken one stays empty. -/
structure Walk where
  links : List Link
  broken : Bool
  deriving DecidableEq, Repr, Inhabited

namespace Walk

/-- The walk before its first node. -/
def start : Walk := ⟨[], false⟩

/-- The walk that met a node it cannot express. -/
def stuck : Walk := ⟨[], true⟩

/-- The walk after one more node. -/
def step (w : Walk) (s : ChainStep) : Walk :=
  if w.broken then stuck
  else
    match s with
    | .push role name => ⟨w.links ++ [⟨name, role⟩], false⟩
    | .pushInvoked name => ⟨w.links ++ [⟨name, .function⟩], false⟩
    | .skip => w
    | .stop => stuck
    | .markInvoked =>
      match w.links.getLast? with
      | some last => ⟨w.links.dropLast ++ [⟨last.name, .function⟩], false⟩
      | none => stuck

end Walk

/-- The receivers of a call and its function; none if the last name is not invoked. -/
def splitChain? (links : List Link) : Option (List Link × Link) :=
  match links.getLast? with
  | some last => if last.role = .function then some (links.dropLast, last) else none
  | none => none

/-- Which child of a node is its receiver. -/
inductive Selector
  /-- The first child in a role. -/
  | field (name : String)
  /-- The first named child. -/
  | firstNamed
  deriving DecidableEq, Repr, Inhabited

/-- The selected child. -/
def Selector.pick : Selector → Tree → Option Tree
  | .field name, t => t.child? name
  | .firstNamed, t => t.firstNamed?

theorem Selector.mem_children_of_pick {s : Selector} {t c : Tree} (h : s.pick t = some c) :
    c ∈ t.children := by
  cases s with
  | field name => exact Tree.mem_children_of_child? h
  | firstNamed => exact Tree.mem_children_of_firstNamed? h

/-- The node, its receiver, the receiver of that, and so on down to the leftmost atom. -/
def receiverPath (receiver : String → Option Selector) (t : Tree) : List Tree :=
  match _h : (receiver t.kind).bind (·.pick t) with
  | some c => t :: receiverPath receiver c
  | none => [t]
termination_by sizeOf t
decreasing_by
  obtain ⟨s, -, hs⟩ := Option.bind_eq_some_iff.1 _h
  exact Tree.sizeOf_lt_of_mem (Selector.mem_children_of_pick hs)

end CodeImpact

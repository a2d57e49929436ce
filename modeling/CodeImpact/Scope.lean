import CodeImpact.Text.Affix

/-!
# Scopes and keys

A scope is the list of declarations around a place in a file, the outermost first. The file itself
is left out. The names of a scope, joined by `::`, together with the file's path make the key of a
declaration.
-/

namespace CodeImpact

/-- The kind of a declaration that encloses others, or that closes a key. -/
inductive ScopeKind
  | file
  | classType
  | interfaceType
  | enumType
  | function
  /-- A function directly inside a type. -/
  | method
  /-- The last frame of an alias' key. -/
  | aliasType
  deriving DecidableEq, Repr, Inhabited

namespace ScopeKind

/-- Classes, interfaces and enumerations own methods. -/
def isType : ScopeKind → Bool
  | .classType | .interfaceType | .enumType => true
  | _ => false

/-- Functions and methods own calls. -/
def isFunction : ScopeKind → Bool
  | .function | .method => true
  | _ => false

end ScopeKind

/-- One enclosing declaration. -/
structure Frame where
  kind : ScopeKind
  name : String
  deriving DecidableEq, Repr, Inhabited

/-- The enclosing declarations, outermost first. -/
structure Scope where
  frames : List Frame
  deriving DecidableEq, Repr, Inhabited

/-- The text between a path and a scope, and between two names. -/
def keySeparator : String := "::"

/-- The key of what `rest` names in the file at `path`. -/
def compositeKey (path rest : String) : String :=
  path ++ keySeparator ++ rest

/-- The two sides of the first separator. -/
def splitComposite? (key : String) : Option (String × String) :=
  (Text.cut? keySeparator.toList key.toList).map fun (path, rest) =>
    (String.ofList path, String.ofList rest)

namespace Scope

/-- The scope of a file's top level. -/
def file : Scope := ⟨[]⟩

/-- Whether no declaration encloses the place. -/
def isFileLevel (s : Scope) : Bool :=
  s.frames.isEmpty

def innermost? (s : Scope) : Option Frame :=
  s.frames.getLast?

/-- Adds a frame inside; a function directly inside a type becomes a method. -/
def push (s : Scope) (f : Frame) : Scope :=
  let inType := s.innermost?.any (·.kind.isType)
  ⟨s.frames ++ [if f.kind = .function && inType then { f with kind := .method } else f]⟩

/-- The frames up to and with the innermost function or method. -/
def upToFunction (s : Scope) : List Frame :=
  (s.frames.reverse.dropWhile fun f => !f.kind.isFunction).reverse

/-- The scope around the innermost function or method, or the whole scope without one. -/
def withoutInnermostFunction (s : Scope) : Scope :=
  match s.upToFunction with
  | [] => s
  | frames => ⟨frames.dropLast⟩

/-- The scope up to and with the innermost function or method. -/
def enclosingFunction? (s : Scope) : Option Scope :=
  match s.upToFunction with
  | [] => none
  | frames => some ⟨frames⟩

/-- The scope without its innermost frame. -/
def parent? (s : Scope) : Option Scope :=
  if s.frames.isEmpty then none else some ⟨s.frames.dropLast⟩

/-- The name of the innermost type. -/
def enclosingType? (s : Scope) : Option String :=
  (s.frames.reverse.find? fun f => f.kind.isType).map (·.name)

/-- The names joined by the separator; empty at file level. -/
def chain (s : Scope) : String :=
  keySeparator.intercalate (s.frames.map (·.name))

/-- A name inside the scope. -/
def qualify (s : Scope) (name : String) : String :=
  if s.isFileLevel then name else compositeKey s.chain name

/-- The key of the scope in the file at `path`. -/
def key (s : Scope) (path : String) : String :=
  compositeKey path s.chain

end Scope

end CodeImpact

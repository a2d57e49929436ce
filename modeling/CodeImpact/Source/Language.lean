import CodeImpact.Path.Basic

/-!
# Source languages

The languages that have a grammar, their names, and their file name extensions.
-/

namespace CodeImpact

/-- A language with a grammar. `tsx` is TypeScript with embedded markup. -/
inductive Language
  | rust
  | python
  | java
  | javascript
  | typescript
  | tsx
  deriving DecidableEq, Repr, Inhabited

namespace Language

def all : List Language :=
  [.rust, .python, .java, .javascript, .typescript, .tsx]

def name : Language → String
  | .rust => "rust"
  | .python => "python"
  | .java => "java"
  | .javascript => "javascript"
  | .typescript => "typescript"
  | .tsx => "tsx"

/-- The extensions that an import of this language may leave out, in the order of preference. -/
def probeExtensions : Language → List String
  | .rust => ["rs"]
  | .python => ["py"]
  | .java => ["java"]
  | .javascript => ["js", "jsx", "mjs", "cjs", "ts", "tsx"]
  | .typescript | .tsx => ["ts", "tsx", "d.ts", "mts", "cts", "js", "jsx"]

/-- The language of files with this extension. -/
def ofExtension? (ext : String) : Option Language :=
  if ext = "rs" then some .rust
  else if ["py", "pyi"].contains ext then some .python
  else if ext = "java" then some .java
  else if ["js", "jsx", "mjs", "cjs"].contains ext then some .javascript
  else if ["ts", "mts", "cts"].contains ext then some .typescript
  else if ext = "tsx" then some .tsx
  else none

/-- The language of a file, by its extension. -/
def ofPath? (path : String) : Option Language :=
  (Path.extension? path).bind ofExtension?

end Language

end CodeImpact

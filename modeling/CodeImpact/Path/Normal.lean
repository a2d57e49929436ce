import CodeImpact.Path.Basic

/-!
# Normal paths

The normal form of a path resolves `.` and `..` by their text alone. `..` takes the name before it
away, is dropped at the root, and stays at the start of a relative path.
-/

namespace CodeImpact.Path

/-- Adds a part to a normal list of parts, kept with the last part first. -/
def pushPart : List Part → Part → List Part
  | done, .here => done
  | .name _ :: done, .up => done
  | .root :: done, .up => .root :: done
  | done, part => part :: done

/-- The normal form of a list of parts. -/
def normalParts (ps : List Part) : List Part :=
  (ps.foldl pushPart []).reverse

def normalize (path : String) : String :=
  ofParts (normalParts (parts path))

/-- The normal form of a path seen from the root directory. -/
def absolutize (path root : String) : String :=
  normalize (join root path)

/-- Why a path cannot be used. -/
inductive Error
  /-- Nothing exists there. -/
  | cannotCanonicalize (path : String)
  /-- It is not a directory. -/
  | notADirectory (path : String)
  /-- It does not lie under the root. -/
  | outsideRoot (path root : String)
  deriving DecidableEq, Repr

def Error.message : Error → String
  | .cannotCanonicalize path => "cannot canonicalize path: " ++ path
  | .notADirectory path => "not a directory: " ++ path
  | .outsideRoot path root =>
    "path escapes project root: " ++ path ++ " (root: " ++ root ++ ")"

/-- The rest of a path under the root. -/
def relativeToRoot (path root : String) : Except Error String :=
  match relativeTo? path root with
  | some rest => .ok rest
  | none => .error (.outsideRoot path root)

end CodeImpact.Path

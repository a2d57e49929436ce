import CodeImpact.Change.Classify
import CodeImpact.Wire.Source

/-!
# Patches and changes as JSON
-/

namespace CodeImpact

namespace Hunk

def word (n : UInt64) : Json :=
  .nat n.toNat

def wordOfJson? (v : Json) : Option UInt64 :=
  v.asNat?.map UInt64.ofNat

def jsonFields (h : Hunk) : List (String × Json) :=
  [("old_start", word h.oldStart), ("old_count", word h.oldCount), ("new_start", word h.newStart),
    ("new_count", word h.newCount), ("added_lines", .arr (h.added.map word)),
    ("deleted_lines", .arr (h.deleted.map word))]

def ofJson? (v : Json) : Option Hunk := do
  let oldStart ← v.required? "old_start" wordOfJson?
  let oldCount ← v.required? "old_count" wordOfJson?
  let newStart ← v.required? "new_start" wordOfJson?
  let newCount ← v.required? "new_count" wordOfJson?
  let added ← v.required? "added_lines" (Json.listOf? wordOfJson?)
  let deleted ← v.required? "deleted_lines" (Json.listOf? wordOfJson?)
  some ⟨oldStart, oldCount, newStart, newCount, added, deleted⟩

/-- A hunk with what it says about ranges of lines. -/
def describe (h : Hunk) (ranges : List (Nat × Nat)) : Json :=
  .obj (h.jsonFields ++
    [("has_changes", .bool h.hasChanges), ("old_range", .arr [word h.oldStart, word h.oldEnd]),
      ("overlaps", .arr (ranges.map fun (a, b) => .bool (h.overlapsOld a b)))])

end Hunk

/-- A file of a patch with what it says about paths and ranges of lines. -/
def FilePatch.describe (f : FilePatch) (paths : List String) (ranges : List (Nat × Nat)) : Json :=
  .obj [("old_path", .orNull (f.oldPath.map .str)), ("new_path", .orNull (f.newPath.map .str)),
    ("has_header", .bool f.hasHeader), ("path", .orNull (f.path?.map .str)),
    ("is_added", .bool f.isAdded), ("is_deleted", .bool f.isDeleted),
    ("hunks", .arr (f.hunks.map fun h => h.describe ranges)),
    ("touches", .arr (paths.map fun p => .bool (f.touches p)))]

/-- A patch with what it says about paths and ranges of lines. -/
def Patch.describe (p : Patch) (paths : List String) (ranges : List (Nat × Nat)) : Json :=
  .obj [("files", .arr (p.files.map fun f => f.describe paths ranges)),
    ("errors", .texts (p.errors.map PatchError.message)),
    ("hunks_for", .arr (paths.map fun path => .arr ((p.hunksFor path).map fun h =>
      .arr [Hunk.word h.oldStart, Hunk.word h.newStart])))]

namespace ChangedFunction

def toJson (d : ChangedFunction) : Json :=
  .obj [("name", .str d.name), ("full_name", .str d.fullName),
    ("function_hash", .str d.functionHash), ("signature_hash", .str d.signatureHash),
    ("id", .str d.id), ("full_text", .str d.fullText), ("lines", .nat d.lines)]

def ofJson? (v : Json) : Option ChangedFunction := do
  let name ← v.required? "name" Json.asText?
  let fullName ← v.required? "full_name" Json.asText?
  let functionHash ← v.required? "function_hash" Json.asText?
  let signatureHash ← v.required? "signature_hash" Json.asText?
  let id ← v.required? "id" Json.asText?
  let fullText ← v.required? "full_text" Json.asText?
  let lines ← v.required? "lines" Json.asNat?
  some ⟨name, fullName, functionHash, signatureHash, id, fullText, lines⟩

end ChangedFunction

namespace ChangeSet

def toJson (c : ChangeSet) : Json :=
  .obj [("added", .arr (c.added.map ChangedFunction.toJson)),
    ("modified", .arr (c.modified.map ChangedFunction.toJson)),
    ("deleted", .arr (c.deleted.map ChangedFunction.toJson))]

def ofJson? (v : Json) : Option ChangeSet := do
  let added ← v.required? "added" (Json.listOf? ChangedFunction.ofJson?)
  let modified ← v.required? "modified" (Json.listOf? ChangedFunction.ofJson?)
  let deleted ← v.required? "deleted" (Json.listOf? ChangedFunction.ofJson?)
  some ⟨added, modified, deleted⟩

/-- A change with its size and its identifiers. -/
def describe (c : ChangeSet) : Json :=
  .obj [("changes", c.toJson), ("len", .nat c.size), ("is_empty", .bool c.isEmpty),
    ("head_ids", .texts c.headIds), ("base_ids", .texts c.baseIds)]

end ChangeSet

end CodeImpact

import CodeImpact.Grammar.Rust
import CodeImpact.Proofs.CallOwners
import CodeImpact.Proofs.Trimming

/-!
# Use trees

A use tree names items by paths, alone, renamed or all those of a module, and puts trees under a
common path, to any depth. What it binds is said by recursion over the tree, and flattening the
syntax of a tree gives the same entries in the same order, with three exceptions: a renamed `self` is
taken for an item called `self` of the module it stands for, separators in front of a list or an
asterisk, with no path before them, are lost, and blanks around the segments of a path are kept.
-/

namespace CodeImpact.Grammar.Rust

open Text

/-! ## Trees and what they bind -/

/-- A path as written: texts with separators between them, the first of which is empty if the path
starts with a separator. Blanks and comments around a name are part of its text. -/
structure UsePath where
  qualifiers : List (List Char)
  last : List Char
  last_ne_nil : last ≠ []
  qualifiers_plain : ∀ s ∈ qualifiers, ':' ∉ s
  last_plain : ':' ∉ last

/-- What stands in front of a list or an asterisk. -/
inductive Lead
  | nothing
  /-- Separators alone, `::`. -/
  | root
  /-- A path and separators, `p::`. -/
  | path (p : UsePath)

inductive UseTree
  | path (p : UsePath)
  /-- `p as name` -/
  | rename (p : UsePath) (name : String)
  /-- `p::*` -/
  | glob (lead : Lead)
  /-- `p::{u, v}` -/
  | group (lead : Lead) (items : List UseTree)
  | self
  /-- `self as name` -/
  | selfAs (name : String)

/-- An item in scope: the segments of its path, its name and the name it gets. -/
structure Binding where
  path : List (List Char)
  name : List Char
  renamed : Option String

def UsePath.segments (p : UsePath) : List (List Char) :=
  p.qualifiers ++ [p.last]

def Lead.segments : Lead → List (List Char)
  | nothing => []
  | root => [[]]
  | path p => p.segments

/-- The module that a list stands for, if it stands for one. -/
def selfBinding (base : List (List Char)) (renamed : Option String) : List Binding :=
  (base.getLast?.map fun name => ⟨base, name, renamed⟩).toList

mutual

/-- What a tree binds under the segments of a path, in the order of its leaves. -/
def UseTree.bindings (base : List (List Char)) : UseTree → List Binding
  | .path p => [⟨base ++ p.segments, p.last, none⟩]
  | .rename p name => [⟨base ++ p.segments, p.last, some name⟩]
  | .glob lead => [⟨base ++ lead.segments, ['*'], none⟩]
  | .group lead items => bindingsAll (base ++ lead.segments) items
  | .self => selfBinding base none
  | .selfAs name => selfBinding base (some name)

def bindingsAll (base : List (List Char)) : List UseTree → List Binding
  | [] => []
  | u :: us => u.bindings base ++ bindingsAll base us

end

/-! ## Syntax of trees -/

def UsePath.chars (p : UsePath) : List Char :=
  pathSeparator.intercalate p.segments

def UsePath.text (p : UsePath) : String :=
  String.ofList p.chars

def Lead.chars : Lead → List Char
  | nothing => []
  | root => pathSeparator
  | path p => p.chars ++ pathSeparator

/-- The kinds of nodes that are a path. -/
def pathKinds : List String :=
  ["identifier", "scoped_identifier", "crate", "super"]

/-- The kinds of nodes that are a use tree. -/
def useKinds : List String :=
  pathKinds ++ ["self", "use_as_clause", "use_wildcard", "scoped_use_list", "use_list"]

/-- The node of a list, and the node in it that holds the items. -/
inductive Lead.Opens (src : SourceText) : Lead → Tree → Tree → Prop
  | nothing {t : Tree} (hkind : t.kind = "use_list") : Opens src .nothing t t
  | root {t list : Tree} (hkind : t.kind = "scoped_use_list") (hpath : t.child? "path" = none)
    (hlist : t.child? "list" = some list) (hitems : list.kind = "use_list") :
    Opens src .root t list
  | path {p : UsePath} {t list path : Tree} (hkind : t.kind = "scoped_use_list")
    (hpath : t.child? "path" = some path) (htext : src.text path = p.text)
    (hlist : t.child? "list" = some list) (hitems : list.kind = "use_list") :
    Opens src (.path p) t list

mutual

/-- The node of a tree. -/
inductive Spells (src : SourceText) : UseTree → Tree → Prop
  | path {p : UsePath} {t : Tree} (hkind : t.kind ∈ pathKinds) (htext : src.text t = p.text) :
    Spells src (.path p) t
  | rename {p : UsePath} {t path name : Tree} (hkind : t.kind = "use_as_clause")
    (hpath : t.child? "path" = some path) (hself : path.kind ≠ "self")
    (htext : src.text path = p.text) (hname : t.child? "alias" = some name) :
    Spells src (.rename p (src.text name)) t
  | glob {lead : Lead} {t : Tree} (hkind : t.kind = "use_wildcard")
    (htext : (src.text t).toList = lead.chars ++ ['*']) : Spells src (.glob lead) t
  | group {lead : Lead} {items : List UseTree} {t list : Tree} (hlead : lead.Opens src t list)
    (hitems : SpellsAll src items list.namedChildren) : Spells src (.group lead items) t
  | self {t : Tree} (hkind : t.kind = "self") : Spells src .self t
  | selfAs {t path name : Tree} (hkind : t.kind = "use_as_clause")
    (hpath : t.child? "path" = some path) (hself : path.kind = "self")
    (htext : src.text path = "self") (hname : t.child? "alias" = some name) :
    Spells src (.selfAs (src.text name)) t

/-- The nodes of trees, with comments between them. -/
inductive SpellsAll (src : SourceText) : List UseTree → List Tree → Prop
  | nil : SpellsAll src [] []
  | cons {u : UseTree} {us : List UseTree} {t : Tree} {ts : List Tree} (h : Spells src u t)
    (hrest : SpellsAll src us ts) : SpellsAll src (u :: us) (t :: ts)
  | skip {us : List UseTree} {t : Tree} {ts : List Tree} (hkind : t.kind ∉ useKinds)
    (hrest : SpellsAll src us ts) : SpellsAll src us (t :: ts)

end

/-! ## Paths -/

/-- The text of a path to put others under, which may be missing. -/
def baseText (base : Option UsePath) : String :=
  base.elim "" UsePath.text

def baseSegments (base : Option UsePath) : List (List Char) :=
  base.elim [] UsePath.segments

namespace UsePath

theorem chars_eq (p : UsePath) :
    p.chars = (p.qualifiers.flatMap fun s => s ++ pathSeparator) ++ p.last := by
  rw [chars, segments]
  induction p.qualifiers with
  | nil => simp
  | cons s rest ih =>
    obtain ⟨next, more, hrest⟩ := List.exists_cons_of_ne_nil
      (List.append_ne_nil_of_right_ne_nil rest (List.cons_ne_nil p.last []))
    rw [List.cons_append, hrest, List.intercalate_cons_cons, ← hrest, ih, List.flatMap_cons]
    simp

/-- A path under another one. -/
def under (base : Option UsePath) (p : UsePath) : UsePath where
  qualifiers := baseSegments base ++ p.qualifiers
  last := p.last
  last_ne_nil := p.last_ne_nil
  qualifiers_plain := by
    intro s hs
    rcases List.mem_append.1 hs with hs | hs
    · cases base with
      | none => simp [baseSegments] at hs
      | some base =>
        rcases List.mem_append.1 hs with hs | hs
        · exact base.qualifiers_plain s hs
        · rw [List.mem_singleton.1 hs]
          exact base.last_plain
    · exact p.qualifiers_plain s hs
  last_plain := p.last_plain

/-- A path under another one has the segments of both. -/
theorem segments_under (base : Option UsePath) (p : UsePath) :
    (p.under base).segments = baseSegments base ++ p.segments :=
  List.append_assoc _ _ _

theorem chars_under (base p : UsePath) :
    (p.under (some base)).chars = base.chars ++ (pathSeparator ++ p.chars) := by
  simp [chars_eq, under, baseSegments, segments]

theorem exists_last (p : UsePath) : ∃ c ∈ p.chars.getLast?, c ∉ pathSeparator := by
  obtain ⟨c, hc⟩ := Option.isSome_iff_exists.1 (List.getLast?_isSome.2 p.last_ne_nil)
  refine ⟨c, by simp [chars_eq, List.getLast?_append, hc], ?_⟩
  have hcolon : c ≠ ':' := fun h => p.last_plain (h ▸ List.mem_of_getLast? hc)
  simpa [pathSeparator] using hcolon

/-- The separators and the asterisk behind a path are found again. -/
theorem dropAllTails_chars (p : UsePath) :
    dropAllTails pathSeparator (dropEndWhile (· = '*') (p.chars ++ pathSeparator ++ ['*'])) =
      p.chars := by
  have hstar : dropEndWhile (· = '*') (p.chars ++ pathSeparator ++ ['*']) =
      p.chars ++ pathSeparator := by
    have hlast : (p.chars ++ pathSeparator).getLast? = some ':' := by
      simp [pathSeparator, List.getLast?_append]
    rw [dropEndWhile_append ⟨':', hlast, by decide⟩, dropEndWhile_of_forall (by simp),
      List.append_nil]
  have hsuffix : ¬ pathSeparator <:+ p.chars := by
    rintro ⟨rest, hrest⟩
    obtain ⟨c, hc, hplain⟩ := p.exists_last
    rw [← hrest, List.getLast?_append] at hc
    obtain rfl : ':' = c := by simpa [pathSeparator] using hc
    exact hplain (by decide)
  rw [hstar, dropAllTails_append_tail (by decide) hsuffix]

theorem chars_ne_nil (p : UsePath) : p.chars ≠ [] := by
  simp [chars_eq, p.last_ne_nil]

theorem text_isEmpty (p : UsePath) : p.text.isEmpty = false := by
  simp [text, p.chars_ne_nil]

theorem joinPath_text (base : Option UsePath) (p : UsePath) :
    joinPath (baseText base) p.text = (p.under base).text := by
  cases base with
  | none => simp [joinPath, baseText, under, baseSegments, text, chars, segments]
  | some base =>
    have hseparator : "::" = String.ofList pathSeparator := by decide
    simp only [joinPath, baseText, Option.elim_some, text_isEmpty, Bool.false_eq_true, if_false]
    rw [text, text, text, chars_under, hseparator, String.append_assoc, String.ofList_append,
      String.ofList_append]

theorem lastSegment_text (p : UsePath) : lastSegment p.text = String.ofList p.last := by
  rcases List.eq_nil_or_concat p.qualifiers with hnil | ⟨rest, s, hconcat⟩
  · have hchars : p.chars = p.last := by simp [chars_eq, hnil]
    have hcut : cutLast? pathSeparator p.last = none := by
      have hreverse : cut? pathSeparator.reverse p.last.reverse = none :=
        cut?_of_not_mem (c := ':') (by decide) (by simpa using p.last_plain)
      rw [cutLast?, hreverse]
      rfl
    rw [lastSegment, text, hchars, String.toList_ofList, hcut]
  · have hchars : p.chars =
        (rest.flatMap fun s => s ++ pathSeparator) ++ s ++ pathSeparator ++ p.last := by
      simp [chars_eq, hconcat]
    have hcut : cutLast? pathSeparator
        ((rest.flatMap fun s => s ++ pathSeparator) ++ s ++ pathSeparator ++ p.last) =
          some ((rest.flatMap fun s => s ++ pathSeparator) ++ s, p.last) :=
      cutLast?_append p.last_plain _ [':']
    rw [lastSegment, text, String.toList_ofList, hchars, hcut]

end UsePath

/-! ## One node -/

section Nodes

variable {src : SourceText} {base : String} {t : Tree}

theorem flattenUse_path (h : t.kind ∈ pathKinds) :
    flattenUse src base t = [useLeaf (joinPath base (src.text t)) none] := by
  have hkind : ["identifier", "scoped_identifier", "crate", "super"].contains t.kind = true := by
    simpa [pathKinds] using h
  rw [flattenUse, if_pos hkind]

theorem flattenUse_self (h : t.kind = "self") :
    flattenUse src base t = if base.isEmpty then [] else [useLeaf base none] := by
  simp [flattenUse, h]

theorem flattenUse_as (h : t.kind = "use_as_clause") {path : Tree}
    (hpath : t.child? "path" = some path) :
    flattenUse src base t =
      [useLeaf (joinPath base (src.text path)) (src.fieldText? t "alias")] := by
  simp [flattenUse, h, SourceText.fieldText?, hpath]

/-- An asterisk imports everything under what is before the separators. -/
theorem flattenUse_wildcard (h : t.kind = "use_wildcard") {path : List Char}
    (hpath : dropAllTails pathSeparator (dropEndWhile (· = '*') (src.text t).toList) = path) :
    flattenUse src base t =
      [(if path = [] then base else joinPath base (String.ofList path), ⟨"*", none⟩)] := by
  simp [flattenUse, h, hpath]

theorem flattenUse_scoped (h : t.kind = "scoped_use_list") {list : Tree}
    (hlist : t.child? "list" = some list) :
    flattenUse src base t =
      flattenUse src (((src.fieldText? t "path").map (joinPath base)).getD base) list := by
  rw [flattenUse]
  simp only [h]
  rw [if_neg (by decide), if_neg (by decide), if_neg (by decide), if_neg (by decide),
    if_pos trivial]
  split
  next other hother =>
    obtain rfl : list = other := Option.some.inj (hlist.symm.trans hother)
    rfl
  next hnone => simp [hlist] at hnone

/-- A list imports what its named children do, in order. -/
theorem flattenUse_list (h : t.kind = "use_list") :
    flattenUse src base t = t.namedChildren.flatMap (flattenUse src base) := by
  have hnamed : ∀ cs : List Tree,
      (cs.flatMap fun c => if c.named then flattenUse src base c else []) =
        (cs.filter (·.named)).flatMap (flattenUse src base) := by
    intro cs
    induction cs with
    | nil => rfl
    | cons c cs ih => by_cases hc : c.named = true <;> simp [hc, ih]
  rw [flattenUse, Tree.namedChildren, ← hnamed]
  simp [h]

theorem flattenUse_other (h : t.kind ∉ useKinds) : flattenUse src base t = [] := by
  simp [useKinds, pathKinds] at h
  rw [flattenUse]
  simp [h]

end Nodes

/-! ## Trees as they are read -/

/-- Separators without a path are lost. -/
def Lead.asRead : Lead → Lead
  | root => nothing
  | lead => lead

/-- The path that all behind a lead is put under. -/
def Lead.next (base : Option UsePath) : Lead → Option UsePath
  | nothing => base
  | root => base
  | path p => some (p.under base)

/-- A path of one segment. -/
def UsePath.name (last : List Char) (hne : last ≠ []) (hplain : ':' ∉ last) : UsePath :=
  ⟨[], last, hne, List.forall_mem_nil _, hplain⟩

def UsePath.self : UsePath :=
  .name "self".toList (by decide) (by decide)

mutual

/-- The tree that the same entries stand for: a renamed `self` is an item of that name. -/
def UseTree.asRead : UseTree → UseTree
  | .glob lead => .glob lead.asRead
  | .group lead items => .group lead.asRead (asReadAll items)
  | .selfAs name => .rename UsePath.self name
  | .path p => .path p
  | .rename p name => .rename p name
  | .self => .self

def asReadAll : List UseTree → List UseTree
  | [] => []
  | u :: us => u.asRead :: asReadAll us

end

/-- The entry of an item. -/
def Binding.entry (b : Binding) : String × ImportedSymbol :=
  (String.ofList (pathSeparator.intercalate b.path), ⟨String.ofList b.name, b.renamed⟩)

section Reading

variable {src : SourceText} {base : Option UsePath} {t : Tree}

theorem baseText_eq (base : Option UsePath) :
    baseText base = String.ofList (pathSeparator.intercalate (baseSegments base)) := by
  cases base <;> rfl

/-- What is behind a lead is put under the lead as it is read. -/
theorem Lead.segments_next (lead : Lead) (base : Option UsePath) :
    baseSegments (lead.next base) = baseSegments base ++ lead.asRead.segments := by
  cases lead with
  | nothing => exact (List.append_nil _).symm
  | root => exact (List.append_nil _).symm
  | path p => exact p.segments_under base

theorem useLeaf_joinPath (base : Option UsePath) (p : UsePath) (renamed : Option String) :
    useLeaf (joinPath (baseText base) p.text) renamed =
      Binding.entry ⟨baseSegments base ++ p.segments, p.last, renamed⟩ := by
  rw [p.joinPath_text, useLeaf, UsePath.lastSegment_text, Binding.entry, ← p.segments_under]
  rfl

/-- `self` stands for the path around it, and for nothing where there is none. -/
theorem self_entries (base : Option UsePath) :
    (if (baseText base).isEmpty then [] else [useLeaf (baseText base) none]) =
      (selfBinding (baseSegments base) none).map Binding.entry := by
  cases base with
  | none => rfl
  | some p =>
    have hlast : p.segments.getLast? = some p.last := by simp [UsePath.segments]
    simp only [baseText, baseSegments, selfBinding, Option.elim_some, p.text_isEmpty, hlast,
      useLeaf, p.lastSegment_text, Option.map_some, Option.toList_some, Bool.false_eq_true, if_false]
    rfl

theorem flattenUse_glob (h : t.kind = "use_wildcard") {lead : Lead}
    (htext : (src.text t).toList = lead.chars ++ ['*']) :
    flattenUse src (baseText base) t = [(baseText (lead.next base), ⟨"*", none⟩)] := by
  cases lead with
  | nothing | root =>
    have hpath : dropAllTails pathSeparator (dropEndWhile (· = '*') (src.text t).toList) = [] := by
      rw [htext]
      decide
    exact flattenUse_wildcard h hpath
  | path p =>
    have hpath :
        dropAllTails pathSeparator (dropEndWhile (· = '*') (src.text t).toList) = p.chars := by
      rw [htext]
      exact p.dropAllTails_chars
    rw [flattenUse_wildcard h hpath, if_neg p.chars_ne_nil]
    exact congrArg (fun text => [(text, _)]) (p.joinPath_text base)

/-- A list is read under the path in front of it. -/
theorem Lead.Opens.flattenUse_eq {lead : Lead} {list : Tree} (h : lead.Opens src t list) :
    flattenUse src (baseText base) t =
      list.namedChildren.flatMap (flattenUse src (baseText (lead.next base))) := by
  cases h with
  | nothing hkind => exact flattenUse_list hkind
  | root hkind hpath hlist hitems =>
    rw [flattenUse_scoped hkind hlist, SourceText.fieldText?, hpath]
    exact flattenUse_list hitems
  | path hkind hpath htext hlist hitems =>
    rw [flattenUse_scoped hkind hlist, SourceText.fieldText?, hpath, Option.map_some,
      Option.map_some, Option.getD_some, htext, UsePath.joinPath_text]
    exact flattenUse_list hitems

mutual

/-- The entries of a tree, by recursion over it, under every base. -/
theorem Spells.flattenUse_eq : ∀ {u : UseTree} {t : Tree}, Spells src u t →
    ∀ base : Option UsePath, flattenUse src (baseText base) t =
      (u.asRead.bindings (baseSegments base)).map Binding.entry
  | _, _, .path hkind htext, base => by
    rw [flattenUse_path hkind, htext, useLeaf_joinPath]
    rfl
  | _, _, .rename hkind hpath hself htext hname, base => by
    rw [flattenUse_as hkind hpath, htext, useLeaf_joinPath, SourceText.fieldText?, hname]
    rfl
  | _, _, .glob hkind htext, base => by
    rw [flattenUse_glob hkind htext, baseText_eq, Lead.segments_next]
    rfl
  | _, _, .group hlead hitems, base => by
    -- the items are read under the path of the list, so the base has to be general
    rw [hlead.flattenUse_eq, hitems.flatMap_eq, Lead.segments_next]
    rfl
  | _, _, .self hkind, base => by
    rw [flattenUse_self hkind]
    exact self_entries base
  | _, _, .selfAs hkind hpath hself htext hname, base => by
    have hself : "self" = UsePath.self.text := by decide
    rw [flattenUse_as hkind hpath, htext, hself, useLeaf_joinPath, SourceText.fieldText?, hname]
    rfl

theorem SpellsAll.flatMap_eq : ∀ {us : List UseTree} {ts : List Tree}, SpellsAll src us ts →
    ∀ base : Option UsePath, ts.flatMap (flattenUse src (baseText base)) =
      (bindingsAll (baseSegments base) (asReadAll us)).map Binding.entry
  | _, _, .nil, base => rfl
  | _, _, .cons h hrest, base => by
    rw [List.flatMap_cons, h.flattenUse_eq, hrest.flatMap_eq, ← List.map_append]
    rfl
  | _, _, .skip hkind hrest, base => by
    rw [List.flatMap_cons, flattenUse_other hkind, hrest.flatMap_eq]
    rfl

end

end Reading

/-! ## Trees that are read as they stand -/

/-- Neither a blank nor a comment stands in the text. -/
def isSolid (s : List Char) : Bool :=
  s.all fun c => !isBlank c && c ≠ '/'

def UsePath.isPlain (p : UsePath) : Bool :=
  p.segments.all isSolid

def Lead.isPlain : Lead → Bool
  | nothing => true
  | root => false
  | path p => p.isPlain

mutual

/-- No `self` is renamed, no list or asterisk has separators without a path in front, and the
segments of all paths are names alone. -/
def UseTree.isPlain : UseTree → Bool
  | .glob lead => lead.isPlain
  | .group lead items => lead.isPlain && allPlain items
  | .selfAs _ => false
  | .path p => p.isPlain
  | .rename p _ => p.isPlain
  | .self => true

def allPlain : List UseTree → Bool
  | [] => true
  | u :: us => u.isPlain && allPlain us

end

theorem Lead.asRead_of_isPlain {lead : Lead} (h : lead.isPlain = true) : lead.asRead = lead := by
  cases lead with
  | nothing => rfl
  | root => cases h
  | path p => rfl

mutual

/-- Plain trees are read as they stand. -/
theorem UseTree.asRead_of_isPlain : ∀ u : UseTree, u.isPlain = true → u.asRead = u
  | .glob _, h => congrArg UseTree.glob (Lead.asRead_of_isPlain h)
  | .group lead items, h => by
    rw [UseTree.isPlain, Bool.and_eq_true] at h
    rw [UseTree.asRead, Lead.asRead_of_isPlain h.1, asReadAll_of_allPlain items h.2]
  | .selfAs _, h => by cases h
  | .path _, _ => rfl
  | .rename _ _, _ => rfl
  | .self, _ => rfl

theorem asReadAll_of_allPlain : ∀ us : List UseTree, allPlain us = true → asReadAll us = us
  | [], _ => rfl
  | u :: us, h => by
    rw [allPlain, Bool.and_eq_true] at h
    rw [asReadAll, u.asRead_of_isPlain h.1, asReadAll_of_allPlain us h.2]

end

/-- The item with the blanks around its segments taken off, which are no part of a name. -/
def Binding.trimmed (b : Binding) : Binding :=
  ⟨b.path.map trimBoth, trimBoth b.name, b.renamed⟩

def Binding.IsSolid (b : Binding) : Prop :=
  b.path.all isSolid = true ∧ isSolid b.name = true

theorem trimBoth_of_isSolid {s : List Char} (h : isSolid s = true) : trimBoth s = s := by
  have hblank : ∀ c ∈ s, isBlank c = false := by
    intro c hc
    have hsolid := List.all_eq_true.1 h c hc
    rw [Bool.and_eq_true, Bool.not_eq_true'] at hsolid
    exact hsolid.1
  rw [trimBoth, trimLeft_of_head fun c hc => hblank c (List.mem_of_mem_head? hc), trimRight,
    dropEndWhile_of_last fun c hc => hblank c (List.mem_of_getLast? hc)]

theorem Binding.IsSolid.trimmed_eq {b : Binding} (h : b.IsSolid) : b.trimmed = b := by
  have hpath : b.path.map trimBoth = b.path.map id :=
    List.map_congr_left fun s hs => trimBoth_of_isSolid (List.all_eq_true.1 h.1 s hs)
  rw [Binding.trimmed, hpath, List.map_id, trimBoth_of_isSolid h.2]

section Solid

variable {base : List (List Char)}

/-- Plain paths under plain segments bind plain names. -/
theorem UsePath.isSolid_binding (hbase : base.all isSolid = true) {p : UsePath}
    (h : p.isPlain = true) (renamed : Option String) :
    Binding.IsSolid ⟨base ++ p.segments, p.last, renamed⟩ := by
  have hpath : (base ++ p.segments).all isSolid = true := by
    rw [List.all_append, hbase]
    exact h
  exact ⟨hpath, List.all_eq_true.1 h p.last (by simp [UsePath.segments])⟩

theorem Lead.all_isSolid (hbase : base.all isSolid = true) {lead : Lead}
    (h : lead.isPlain = true) : (base ++ lead.segments).all isSolid = true := by
  cases lead with
  | nothing => rwa [Lead.segments, List.append_nil]
  | root => cases h
  | path p =>
    rw [List.all_append, hbase]
    exact h

mutual

/-- What a plain tree binds under names has names alone for its segments. -/
theorem UseTree.isSolid_of_mem_bindings : ∀ (u : UseTree) (base : List (List Char)),
    u.isPlain = true → base.all isSolid = true → ∀ b ∈ u.bindings base, b.IsSolid
  | .path p, base, h, hbase, b, hb => by
    rw [List.mem_singleton.1 hb]
    exact UsePath.isSolid_binding hbase h none
  | .rename p name, base, h, hbase, b, hb => by
    rw [List.mem_singleton.1 hb]
    exact UsePath.isSolid_binding hbase h (some name)
  | .glob lead, base, h, hbase, b, hb => by
    rw [List.mem_singleton.1 hb]
    exact ⟨Lead.all_isSolid hbase h, rfl⟩
  | .group lead items, base, h, hbase, b, hb => by
    rw [UseTree.isPlain, Bool.and_eq_true] at h
    exact isSolid_of_mem_bindingsAll items _ h.2 (Lead.all_isSolid hbase h.1) b hb
  | .self, base, _, hbase, b, hb => by
    obtain ⟨name, hname, rfl⟩ := Option.map_eq_some_iff.1 (Option.mem_toList.1 hb)
    exact ⟨hbase, List.all_eq_true.1 hbase name (List.mem_of_getLast? hname)⟩
  | .selfAs _, _, h, _, _, _ => by cases h

theorem isSolid_of_mem_bindingsAll : ∀ (us : List UseTree) (base : List (List Char)),
    allPlain us = true → base.all isSolid = true → ∀ b ∈ bindingsAll base us, b.IsSolid
  | [], _, _, _, _, hb => by cases hb
  | u :: us, base, h, hbase, b, hb => by
    rw [allPlain, Bool.and_eq_true] at h
    rcases List.mem_append.1 hb with hb | hb
    · exact u.isSolid_of_mem_bindings base h.1 hbase b hb
    · exact isSolid_of_mem_bindingsAll us base h.2 hbase b hb

end

/-- Nothing has to be trimmed in what a plain tree binds. -/
theorem UseTree.map_trimmed_bindings {u : UseTree} (h : u.isPlain = true)
    (hbase : base.all isSolid = true) :
    (u.bindings base).map (fun b => b.trimmed.entry) = (u.bindings base).map Binding.entry :=
  List.map_congr_left fun b hb =>
    congrArg Binding.entry (u.isSolid_of_mem_bindings base h hbase b hb).trimmed_eq

end Solid

/-- The import of one item. -/
def Binding.decl (line : Nat) (b : Binding) : ImportDecl :=
  ⟨b.entry.1, [b.entry.2], line⟩

/-- Flattening a plain use tree under a plain path gives the entries of what it binds there, leaf by
leaf. In general a renamed `self` is taken for an item, separators without a path are left out, and
segments stay as they are written; the imports of a declaration are these entries. -/
theorem flattened_use_tree {src : SourceText} {u : UseTree} {t : Tree} (h : Spells src u t) :
    (u.isPlain = true → ∀ base : Option UsePath, base.all UsePath.isPlain = true →
      flattenUse src (baseText base) t =
        (u.bindings (baseSegments base)).map fun b => b.trimmed.entry) ∧
    (∀ base : Option UsePath, flattenUse src (baseText base) t =
      (u.asRead.bindings (baseSegments base)).map Binding.entry) ∧
    (∀ d : Tree, d.kind = "use_declaration" → d.child? "argument" = some t →
      imports src d = (u.asRead.bindings []).map (Binding.decl (src.startLine d))) := by
  refine ⟨fun hplain base hbase => ?_, h.flattenUse_eq, fun d hkind hargument => ?_⟩
  · have hsolid : (baseSegments base).all isSolid = true := by
      cases base with
      | none => rfl
      | some p => exact hbase
    have hflatten := h.flattenUse_eq base
    rw [u.asRead_of_isPlain hplain] at hflatten
    rw [hflatten, UseTree.map_trimmed_bindings hplain hsolid]
  · have hflatten : flattenUse src "" t = (u.asRead.bindings []).map Binding.entry :=
      h.flattenUse_eq none
    rw [imports, if_pos hkind, hargument, Option.map_some, Option.getD_some, hflatten,
      List.map_map]
    rfl

/-- A tree with a module, a renamed item of it and all items of a submodule. -/
def moduleAndItems : UseTree :=
  .group (.path (.name ['m'] (by decide) (by decide)))
    [.self, .rename (.name ['x'] (by decide) (by decide)) "z",
      .glob (.path (.name ['y'] (by decide) (by decide)))]

def moduleAndItemsSource : SourceText :=
  ⟨"use m::{self, x as z, y::*};".toUTF8⟩

def moduleAndItemsNode : Tree :=
  CodeGraph.part "scoped_use_list" (some "argument") 4 27
    [CodeGraph.part "identifier" (some "path") 4 5 [],
      CodeGraph.part "use_list" (some "list") 7 27
        [CodeGraph.part "self" none 8 12 [],
          CodeGraph.part "use_as_clause" none 14 20
            [CodeGraph.part "identifier" (some "path") 14 15 [],
              CodeGraph.part "identifier" (some "alias") 19 20 []],
          CodeGraph.part "use_wildcard" none 22 26
            [CodeGraph.part "identifier" none 22 23 []]]]

theorem moduleAndItems_spells : Spells moduleAndItemsSource moduleAndItems moduleAndItemsNode := by
  have hname : moduleAndItemsSource.text (CodeGraph.part "identifier" (some "alias") 19 20 []) =
      "z" := by
    decide
  refine .group (.path rfl rfl (by decide) rfl rfl)
    (.cons (.self rfl) (.cons ?_ (.cons ?_ .nil)))
  · rw [← hname]
    exact .rename rfl rfl (by decide) (by decide) rfl
  · exact .glob rfl (by decide)

theorem moduleAndItems_flattened :
    flattenUse moduleAndItemsSource "" moduleAndItemsNode =
      [("m", ⟨"m", none⟩), ("m::x", ⟨"x", some "z"⟩), ("m::y", ⟨"*", none⟩)] :=
  ((flattened_use_tree moduleAndItems_spells).1 (by decide) none rfl).trans
    (by decide)

/-- A module under another name. -/
def renamedModule : UseTree :=
  .group (.path ⟨[['a']], ['b'], by decide, List.forall_mem_singleton.2 (by decide), by decide⟩)
    [.selfAs "c"]

def renamedModuleSource : SourceText :=
  ⟨"use a::b::{self as c};".toUTF8⟩

def renamedModuleNode : Tree :=
  CodeGraph.part "scoped_use_list" (some "argument") 4 21
    [CodeGraph.part "scoped_identifier" (some "path") 4 8 [],
      CodeGraph.part "use_list" (some "list") 10 21
        [CodeGraph.part "use_as_clause" none 11 20
          [CodeGraph.part "self" (some "path") 11 15 [],
            CodeGraph.part "identifier" (some "alias") 19 20 []]]]

theorem renamedModule_spells : Spells renamedModuleSource renamedModule renamedModuleNode := by
  have hname : renamedModuleSource.text (CodeGraph.part "identifier" (some "alias") 19 20 []) =
      "c" := by
    decide
  refine .group (.path rfl rfl (by decide) rfl rfl) (.cons ?_ .nil)
  rw [← hname]
  exact .selfAs rfl rfl rfl (by decide) rfl

/-- A path with blanks around its separators. -/
def spacedPath : UseTree :=
  .path ⟨[['a', ' ']], [' ', 'b'], by decide, List.forall_mem_singleton.2 (by decide), by decide⟩

def spacedPathSource : SourceText :=
  ⟨"use a :: b;".toUTF8⟩

def spacedPathNode : Tree :=
  CodeGraph.part "scoped_identifier" (some "argument") 4 10
    [CodeGraph.part "identifier" (some "path") 4 5 [],
      CodeGraph.part "identifier" (some "name") 9 10 []]

theorem spacedPath_spells : Spells spacedPathSource spacedPath spacedPathNode :=
  .path (by decide) (by decide)

/-- The module `a::b` under the name `c` is taken for an item of `a::b` called `self`, and the item
`b` of `a` is called ` b` if a blank stands before it. -/
theorem renamedModule_spacedPath_misread :
    ((renamedModule.bindings []).map (fun b => b.trimmed.entry) = [("a::b", ⟨"b", some "c"⟩)] ∧
      flattenUse renamedModuleSource "" renamedModuleNode =
        [("a::b::self", ⟨"self", some "c"⟩)]) ∧
    ((spacedPath.bindings []).map (fun b => b.trimmed.entry) = [("a::b", ⟨"b", none⟩)] ∧
      flattenUse spacedPathSource "" spacedPathNode = [("a :: b", ⟨" b", none⟩)]) := by
  refine ⟨⟨by decide, ?_⟩, by decide, ?_⟩
  · exact (renamedModule_spells.flattenUse_eq none).trans (by decide)
  · exact (spacedPath_spells.flattenUse_eq none).trans (by decide)

end CodeImpact.Grammar.Rust

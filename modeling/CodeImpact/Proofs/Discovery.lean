import CodeImpact.Proofs.DiskPaths
import CodeImpact.Proofs.Unique
import Mathlib.Data.List.Lex
import Mathlib.Data.List.Nodup
import Mathlib.Data.Prod.Lex
import Mathlib.Data.String.Basic

/-!
# Files taken and files left out

The files under a root are sorted into those that are taken and those that are reported, and a file
has one of the two answers: the first of the reasons that apply to it decides. Files in directories
that never hold sources have none, and neither have files whose paths are too long to lead to them.
-/

namespace CodeImpact

/-! ## The order of paths and of remarks -/

namespace Path

/-- Where a part stands in the order of parts. -/
def Part.place : Part → Nat ×ₗ String
  | .root => toLex (0, "")
  | .here => toLex (1, "")
  | .up => toLex (2, "")
  | .name text => toLex (3, text)

theorem Part.place_injective : Function.Injective Part.place := by
  intro p q h
  cases p <;> cases q <;> simp_all [place]

theorem Part.before_iff {p q : Part} : p.before q = true ↔ p.place < q.place := by
  cases p <;> cases q <;> simp [before, place, Prod.Lex.toLex_lt_toLex]

/-- Where a path stands in the order of paths. -/
def place (path : String) : List (Nat ×ₗ String) :=
  (parts path).map Part.place

theorem partsBefore_iff {ps qs : List Part} :
    partsBefore ps qs = true ↔ ps.map Part.place < qs.map Part.place := by
  induction ps generalizing qs with
  | nil => cases qs <;> simp [partsBefore]
  | cons p ps ih =>
    cases qs with
    | nil => simp [partsBefore]
    | cons q qs =>
      simp [partsBefore, ih, Part.before_iff, List.cons_lt_cons_iff, Part.place_injective.eq_iff]

theorem before_iff {a b : String} : before a b = true ↔ place a < place b :=
  partsBefore_iff

end Path

theorem Discovery.notAfter_iff {a b : String} :
    notAfter a b = true ↔ Path.place a ≤ Path.place b := by
  rw [notAfter, Bool.not_eq_true', ← Bool.not_eq_true, Path.before_iff, not_lt]

namespace Diagnostic

/-- Where a remark stands in the order of reports. -/
def place (d : Diagnostic) : String ×ₗ Nat ×ₗ Nat :=
  toLex (d.path, toLex (d.kindRank, d.detailRank))

theorem notAfter_iff {a b : Diagnostic} : a.notAfter b = true ↔ a.place ≤ b.place := by
  simp [notAfter, place, Prod.Lex.toLex_le_toLex]

end Diagnostic

/-! ## The tree that is walked -/

/-- A file or a link in a tree. -/
structure Leaf where
  /-- The names from the root of the tree. -/
  names : List String
  isLink : Bool
  deriving DecidableEq, Repr

/-- Whether an entry is a link, if it is no directory. -/
def Entry.leafKind? : Entry → Option Bool
  | .file _ => some false
  | .link _ => some true
  | .directory _ => none

/-- Whether there is a file or a link at a place. -/
def Disk.HasLeaf (d : Disk) (names : List String) : Prop :=
  ∃ isLink, (d.at? names).bind Entry.leafKind? = some isLink

/-- The visit of a leaf of the tree at a place. -/
def Leaf.visit (top : List String) (l : Leaf) : Visit :=
  ⟨Disk.pathOf (top ++ l.names), l.isLink⟩

/-- Whether the directory of a leaf can be opened. -/
def Leaf.isOpen (top : List String) (l : Leaf) : Bool :=
  (Disk.pathOf (top ++ l.names.dropLast)).utf8ByteSize ≤ Disk.maxPathBytes

mutual

/-- The leaves at and below an entry, directories that never hold sources left out. -/
def Entry.leaves (name : String) : Entry → List Leaf
  | .file _ => [⟨[name], false⟩]
  | .link _ => [⟨[name], true⟩]
  | .directory entries =>
    if isInternalName name then [] else (leavesIn entries).map fun l => ⟨name :: l.names, l.isLink⟩

/-- The leaves below a directory. -/
def leavesIn : List (String × Entry) → List Leaf
  | [] => []
  | (name, e) :: rest => e.leaves name ++ leavesIn rest

end

theorem leavesIn_eq_flatMap (entries : List (String × Entry)) :
    leavesIn entries = entries.flatMap fun p => p.2.leaves p.1 := by
  induction entries with
  | nil => rfl
  | cons p entries ih => rw [leavesIn, List.flatMap_cons, ih]

theorem visitsIn_eq_flatMap (dir : String) (entries : List (String × Entry)) :
    visitsIn dir entries = entries.flatMap fun p => p.2.visits dir p.1 := by
  induction entries with
  | nil => rfl
  | cons p entries ih => rw [visitsIn, List.flatMap_cons, ih]

/-- What lies under a name has this name first on its way. -/
theorem Entry.exists_names_of_mem_leaves {e : Entry} {name : String} {l : Leaf}
    (h : l ∈ e.leaves name) : ∃ rest, l.names = name :: rest := by
  cases e with
  | file f => exact ⟨[], by rw [List.mem_singleton.1 h]⟩
  | link target => exact ⟨[], by rw [List.mem_singleton.1 h]⟩
  | directory entries =>
    rw [leaves] at h
    split at h
    next => cases h
    next =>
      obtain ⟨l', -, rfl⟩ := List.mem_map.1 h
      exact ⟨l'.names, rfl⟩

theorem names_ne_nil_of_mem_leavesIn {entries : List (String × Entry)} {l : Leaf}
    (h : l ∈ leavesIn entries) : l.names ≠ [] := by
  rw [leavesIn_eq_flatMap] at h
  obtain ⟨p, -, hl⟩ := List.mem_flatMap.1 h
  obtain ⟨rest, hrest⟩ := Entry.exists_names_of_mem_leaves hl
  rw [hrest]
  exact List.cons_ne_nil _ _

/-- The leaves whose directories can be opened, in the tree at a place. -/
def openLeaves (top : List String) (entries : List (String × Entry)) : List Leaf :=
  (leavesIn entries).filter (Leaf.isOpen top)

/-- Below a directory whose path is too long nothing is met. -/
theorem openLeaves_of_long {top : List String} {entries : List (String × Entry)}
    (h : Disk.maxPathBytes < (Disk.pathOf top).utf8ByteSize) : openLeaves top entries = [] := by
  refine List.filter_eq_nil_iff.2 fun l _ hopen => ?_
  exact absurd (of_decide_eq_true hopen)
    (Nat.not_le.2 (h.trans_le (Path.utf8ByteSize_pathOf_le top l.names.dropLast)))

/-- A walk of a directory is that of its entries, one after the other. -/
theorem visitsIn_eq_of_visits {dir : String} {top : List String} {entries : List (String × Entry)}
    (h : ∀ p ∈ entries, (p.2.visits dir p.1).filterMap Except.toOption =
      ((p.2.leaves p.1).filter (Leaf.isOpen top)).map (Leaf.visit top)) :
    (visitsIn dir entries).filterMap Except.toOption =
      (openLeaves top entries).map (Leaf.visit top) := by
  rw [visitsIn_eq_flatMap, openLeaves, leavesIn_eq_flatMap, List.filterMap_flatMap,
    List.filter_flatMap, List.map_flatMap]
  exact List.flatMap_congr h

/-- In a directory that can be opened, a walk meets the leaves whose directories can be opened too. -/
theorem Entry.Sound.visits_eq {e : Entry} (he : e.Sound) {top : List String} {name : String}
    (htop : ∀ n ∈ top, Disk.IsFileName n) (hname : Disk.IsFileName name)
    (hlength : (Disk.pathOf top).utf8ByteSize ≤ Disk.maxPathBytes) :
    (e.visits (Disk.pathOf top) name).filterMap Except.toOption =
      ((e.leaves name).filter (Leaf.isOpen top)).map (Leaf.visit top) := by
  have hjoin : ∀ {top name}, (∀ n ∈ top, Disk.IsFileName n) → Disk.IsFileName name →
      Path.join (Disk.pathOf top) name = Disk.pathOf (top ++ [name]) :=
    fun htop hname => Path.join_pathOf (fun n hn => (htop n hn).isName) hname.isName
  induction he generalizing top name with
  | file f =>
    simp [visits, leaves, hjoin htop hname, Leaf.isOpen, Leaf.visit, hlength, Except.toOption]
  | link target =>
    simp [visits, leaves, hjoin htop hname, Leaf.isOpen, Leaf.visit, hlength, Except.toOption]
  | @directory entries distinct names inner ih =>
    have hnext : ∀ n ∈ top ++ [name], Disk.IsFileName n :=
      List.forall_mem_append.2 ⟨htop, List.forall_mem_singleton.2 hname⟩
    -- A leaf below is open if it is open as one of the inner directory.
    have hopen : (leavesIn entries).filter (Leaf.isOpen top ∘ fun l => ⟨name :: l.names, l.isLink⟩) =
        openLeaves (top ++ [name]) entries := by
      refine List.filter_congr fun l hl => ?_
      rw [Function.comp_apply, Leaf.isOpen, Leaf.isOpen,
        List.dropLast_cons_of_ne_nil (names_ne_nil_of_mem_leavesIn hl), List.append_assoc]
      rfl
    rw [visits, leaves, hjoin htop hname, Disk.fault?_pathOf hnext]
    split
    next => rfl
    next =>
      rw [List.filter_map, List.map_map, hopen]
      by_cases hlong : (Disk.pathOf (top ++ [name])).utf8ByteSize ≤ Disk.maxPathBytes
      · rw [if_pos hlong]
        refine (visitsIn_eq_of_visits fun p hp => ih p hp hnext (names p hp) hlong).trans ?_
        exact List.map_congr_left fun l _ => by simp [Leaf.visit]
      · rw [if_neg hlong, openLeaves_of_long (Nat.not_le.1 hlong)]
        rfl

/-- The leaves below a directory are the files and links there with no directory on the way that
never holds sources. -/
theorem mem_leavesIn {entries : List (String × Entry)} (h : (Entry.directory entries).Sound)
    {names : List String} {isLink : Bool} : ⟨names, isLink⟩ ∈ leavesIn entries ↔
      ((Entry.directory entries).descend? names).bind Entry.leafKind? = some isLink ∧
      names.dropLast.any isInternalName = false := by
  induction names generalizing entries with
  | nil =>
    simp only [leavesIn_eq_flatMap, List.mem_flatMap, Entry.descend?, Option.bind_some,
      Entry.leafKind?, reduceCtorEq, false_and, iff_false]
    rintro ⟨p, -, hl⟩
    obtain ⟨rest, hrest⟩ := Entry.exists_names_of_mem_leaves hl
    cases hrest
  | cons name rest ih =>
    cases h with | directory distinct hnames inner
    -- Only the entry of the first name has such a leaf.
    have hfirst : ⟨name :: rest, isLink⟩ ∈ leavesIn entries ↔
        ∃ e, Entry.lookup? name entries = some e ∧ ⟨name :: rest, isLink⟩ ∈ e.leaves name := by
      rw [leavesIn_eq_flatMap, List.mem_flatMap]
      constructor
      · rintro ⟨⟨n, e⟩, hp, hl⟩
        obtain ⟨rest', hrest⟩ := Entry.exists_names_of_mem_leaves hl
        obtain rfl : name = n := (List.cons.inj hrest).1
        exact ⟨e, Entry.lookup?_of_mem distinct hp, hl⟩
      · rintro ⟨e, hlookup, hl⟩
        exact ⟨_, Entry.mem_of_lookup? hlookup, hl⟩
    rw [hfirst, Entry.descend?]
    cases hlookup : Entry.lookup? name entries with
    | none => simp
    | some e =>
      have he := inner _ (Entry.mem_of_lookup? hlookup)
      simp only [Option.some.injEq, exists_eq_left', Option.bind_some]
      cases e with
      | file f =>
        cases rest <;> cases isLink <;> simp [Entry.leaves, Entry.descend?, Entry.leafKind?]
      | link target =>
        cases rest <;> cases isLink <;> simp [Entry.leaves, Entry.descend?, Entry.leafKind?]
      | directory inside =>
        have hinside : ⟨name :: rest, isLink⟩ ∈ (Entry.directory inside).leaves name ↔
            isInternalName name = false ∧ ⟨rest, isLink⟩ ∈ leavesIn inside := by
          rw [Entry.leaves]
          cases isInternalName name with
          | true => simp
          | false =>
            simp only [Bool.false_eq_true, if_false, List.mem_map, Leaf.mk.injEq, List.cons.injEq,
              true_and]
            constructor
            · rintro ⟨l, hl, rfl, rfl⟩
              exact hl
            · exact fun hl => ⟨_, hl, rfl, rfl⟩
        rw [hinside, ih he]
        cases rest with
        | nil => simp [Entry.descend?, Entry.leafKind?]
        | cons m rest =>
          rw [List.dropLast_cons_of_ne_nil (List.cons_ne_nil m rest), List.any_cons,
            Bool.or_eq_false_iff, and_left_comm]

/-- Entries with different names lead to different places. -/
theorem nodup_leavesIn_of_leaves {entries : List (String × Entry)}
    (hdistinct : (entries.map (·.1)).Nodup)
    (h : ∀ p ∈ entries, ((p.2.leaves p.1).map (·.names)).Nodup) :
    ((leavesIn entries).map (·.names)).Nodup := by
  rw [leavesIn_eq_flatMap, List.map_flatMap, List.nodup_flatMap]
  refine ⟨h, (List.pairwise_map.1 hdistinct).imp fun {p q} hne names hp hq => hne ?_⟩
  obtain ⟨l, hl, rfl⟩ := List.mem_map.1 hp
  obtain ⟨l', hl', heq⟩ := List.mem_map.1 hq
  obtain ⟨rest, hrest⟩ := Entry.exists_names_of_mem_leaves hl
  obtain ⟨rest', hrest'⟩ := Entry.exists_names_of_mem_leaves hl'
  rw [hrest, hrest'] at heq
  exact (List.cons.inj heq).1.symm

theorem Entry.Sound.nodup_leaves {e : Entry} (he : e.Sound) (name : String) :
    ((e.leaves name).map (·.names)).Nodup := by
  induction he generalizing name with
  | file f => simp [leaves]
  | link target => simp [leaves]
  | @directory entries distinct names inner ih =>
    rw [leaves]
    split
    next => exact List.nodup_nil
    next =>
      have hinside := nodup_leavesIn_of_leaves distinct fun p hp => ih p hp p.1
      rw [List.map_map]
      have hcons := hinside.map (List.cons_injective (a := name))
      rwa [List.map_map] at hcons

/-- No two leaves have the same place. -/
theorem nodup_leavesIn {entries : List (String × Entry)} (h : (Entry.directory entries).Sound) :
    ((leavesIn entries).map (·.names)).Nodup := by
  cases h with | directory distinct _ inner
  exact nodup_leavesIn_of_leaves distinct fun p hp => (inner p hp).nodup_leaves p.1

/-- What tells places apart has no repetitions over a directory. -/
theorem nodup_map_leavesIn {entries : List (String × Entry)} (h : (Entry.directory entries).Sound)
    {γ : Type} {f : Leaf → γ} (hf : ∀ l ∈ leavesIn entries, ∀ l' ∈ leavesIn entries,
      f l = f l' → l.names = l'.names) : ((leavesIn entries).map f).Nodup :=
  List.pairwise_map.2 ((List.pairwise_map.1 (nodup_leavesIn h)).imp_of_mem
    fun hl hl' hne heq => hne (hf _ hl _ hl' heq))

/-! ## Reasons to leave a file out -/

namespace FileRules

variable {top names : List String}

/-- The reasons to leave a file out; the first one that applies counts. -/
def precedence : List SkipReason :=
  [.ignoredInternal, .ignoredByGitignore, .unsupportedLanguage, .excludedByGlob]

/-- The directories around a place, the outermost first. -/
def directoriesAround (names : List String) : List (List String) :=
  names.dropLast.inits.tail

/-- Whether a reason applies to a file with these names under the root. -/
def applies (rules : FileRules) (names : List String) : SkipReason → Bool
  | .notAFile => false
  | .ignoredInternal => names.any isInternalName
  | .ignoredByGitignore =>
    rules.ignores ("/".intercalate names) false ||
      (directoriesAround names).any fun dir => rules.ignores ("/".intercalate dir) true
  | .unsupportedLanguage => (Language.ofPath? ("/".intercalate names)).isNone
  | .excludedByGlob => !rules.admits (Text.replaceChar '\\' ['/'] ("/".intercalate names))

theorem directoriesAround_concat (hne : names ≠ []) (name : String) :
    directoriesAround (names ++ [name]) = directoriesAround names ++ [names] := by
  obtain ⟨outer, last, rfl⟩ := (List.eq_nil_or_concat' names).resolve_left hne
  have hinits : (outer ++ [last]).inits = outer.inits ++ [outer ++ [last]] := by
    simp [List.inits_append]
  rw [directoriesAround, directoriesAround, List.dropLast_concat, List.dropLast_concat, hinits,
    List.tail_append_of_ne_nil (by cases outer <;> simp)]

/-- The directories around a path are found from the innermost outwards. -/
theorem ancestors_names {k : Nat} (h : ∀ n ∈ names, Path.IsName n.toList) (hk : names.length ≤ k) :
    ancestors k ("/".intercalate names) =
      ((directoriesAround names).map ("/".intercalate ·)).reverse := by
  induction names using List.reverseRecOn generalizing k with
  | nil => cases k <;> rfl
  | append_singleton names name ih =>
    have hnames : ∀ n ∈ names, Path.IsName n.toList := fun n hn =>
      h n (List.mem_append_left _ hn)
    rw [List.length_append, List.length_singleton] at hk
    obtain ⟨k, rfl⟩ : ∃ j, k = j + 1 := Nat.exists_eq_add_one.2 (by omega)
    rw [ancestors, Path.parent?_names h]
    by_cases hne : names = []
    · subst hne
      rfl
    · have htext : ("/".intercalate names).isEmpty = false := by
        rw [← Bool.not_eq_true, String.isEmpty_iff]
        intro hempty
        have hparts := Path.parts_names hnames
        rw [hempty] at hparts
        exact hne (List.map_eq_nil_iff.1 hparts.symm)
      simp only [htext, Bool.false_eq_true, if_false]
      rw [ih hnames (by omega), directoriesAround_concat hne]
      simp

/-- A file is ignored iff a rule says so of it or of a directory around it. -/
theorem isIgnored_names (rules : FileRules) (h : ∀ n ∈ names, Path.IsName n.toList) :
    rules.isIgnored ("/".intercalate names) = rules.applies names .ignoredByGitignore := by
  rw [isIgnored, Path.parts_names h, List.length_map, ancestors_names h le_rfl, List.any_reverse,
    List.any_map, applies]
  rfl

/-- Under its root, a path is its names with slashes between them. -/
theorem pathUnder_pathOf (htop : ∀ n ∈ top, Path.IsName n.toList)
    (h : ∀ n ∈ names, Path.IsName n.toList) (hne : names ≠ []) :
    pathUnder (Disk.pathOf top) (Disk.pathOf (top ++ names)) = "/".intercalate names := by
  rw [pathUnder, Path.relativeTo?_pathOf htop h hne, Option.getD_some]

/-- Names above the root do not make a path internal. -/
theorem isInternal_pathOf (htop : ∀ n ∈ top, Path.IsName n.toList)
    (h : ∀ n ∈ names, Path.IsName n.toList) (hne : names ≠ []) :
    isInternal (Disk.pathOf top) (Disk.pathOf (top ++ names)) = names.any isInternalName := by
  rw [isInternal, Path.relativeTo?_pathOf htop h hne]
  simp only [Path.parts_names h, List.any_map]
  rfl

/-- The language does not depend on what is above the root. -/
theorem ofPath?_pathOf (htop : ∀ n ∈ top, Path.IsName n.toList)
    (h : ∀ n ∈ names, Path.IsName n.toList) (hne : names ≠ []) :
    Language.ofPath? (Disk.pathOf (top ++ names)) = Language.ofPath? ("/".intercalate names) := by
  have hall : ∀ n ∈ top ++ names, Path.IsName n.toList := List.forall_mem_append.2 ⟨htop, h⟩
  have hlast : (Path.parts (Disk.pathOf (top ++ names))).getLast? =
      (Path.parts ("/".intercalate names)).getLast? := by
    rw [Path.parts_pathOf hall, Path.parts_names h, List.map_append, ← List.cons_append]
    exact List.getLast?_append_of_ne_nil _ (by simpa using hne)
  rw [Language.ofPath?, Language.ofPath?, Path.extension?, Path.extension?, Path.name?, Path.name?,
    hlast]

/-- The rules are tried in the order of the reasons. -/
theorem skipReason?_pathOf (rules : FileRules) (htop : ∀ n ∈ top, Path.IsName n.toList)
    (h : ∀ n ∈ names, Path.IsName n.toList) (hne : names ≠ []) :
    rules.skipReason? (Disk.pathOf top) true (Disk.pathOf (top ++ names)) =
      precedence.find? (rules.applies names) := by
  have hinternal : isInternal (Disk.pathOf top) (Disk.pathOf (top ++ names)) =
      rules.applies names .ignoredInternal := isInternal_pathOf htop h hne
  have hlanguage : (Language.ofPath? (Disk.pathOf (top ++ names))).isNone =
      rules.applies names .unsupportedLanguage := by
    rw [ofPath?_pathOf htop h hne, applies]
  have hglob : (!rules.admits (plainPathUnder (Disk.pathOf top) (Disk.pathOf (top ++ names)))) =
      rules.applies names .excludedByGlob := by
    rw [plainPathUnder, Path.relativeTo?_pathOf htop h hne, applies]
  rw [skipReason?, hinternal, pathUnder_pathOf htop h hne, isIgnored_names _ h, hlanguage, hglob]
  simp only [precedence, List.find?_cons, List.find?_nil]
  cases rules.applies names .ignoredInternal <;> cases rules.applies names .ignoredByGitignore <;>
    cases rules.applies names .unsupportedLanguage <;>
    cases rules.applies names .excludedByGlob <;> rfl

end FileRules

/-! ## What is taken and what is reported -/

namespace Discovery

variable {root : String} {reason? : Visit → Option SkipReason} {visits : List Visit}

/-- The files are the visits without a reason against them. -/
theorem mem_files {path : String} : path ∈ (ofVisits root reason? visits).files ↔
    ∃ v ∈ visits, reason? v = none ∧ v.path = path := by
  simp [ofVisits, List.mem_mergeSort, and_assoc]

/-- A remark names the path under the root and the reason. -/
theorem remark?_eq_some {v : Visit} {reason : SkipReason} {r : Diagnostic}
    (h : remark? root v reason = some r) : r = .skipped (FileRules.pathUnder root v.path) reason := by
  unfold remark? at h
  split at h
  · exact (Option.some.inj h).symm
  · cases h

/-- All reasons but one are reported of files as well as of links. -/
theorem bind_remark? {v : Visit} {why? : Option SkipReason} (h : why? ≠ some .notAFile) :
    why?.bind (remark? root v) = why?.map (.skipped (FileRules.pathUnder root v.path)) := by
  cases why? with
  | none => rfl
  | some reason =>
    have hreason : (reason != .notAFile) = true := by
      rw [bne_iff_ne]
      rintro rfl
      exact h rfl
    rw [Option.bind_some, remark?, hreason, Bool.true_or, if_pos rfl, Option.map_some]

/-- Each visit brings at most one remark, and sorting drops none. -/
theorem skipped_perm : (ofVisits root reason? visits).skipped.Perm (visits.filterMap fun v =>
    (reason? v).bind (remark? root v)) :=
  List.mergeSort_perm _ _

theorem exists_visit_of_mem_skipped {r : Diagnostic}
    (h : r ∈ (ofVisits root reason? visits).skipped) :
    ∃ v ∈ visits, ∃ reason, r = .skipped (FileRules.pathUnder root v.path) reason := by
  obtain ⟨v, hv, hr⟩ := List.mem_filterMap.1 (skipped_perm.mem_iff.1 h)
  obtain ⟨reason, -, hr⟩ := Option.bind_eq_some_iff.1 hr
  exact ⟨v, hv, reason, remark?_eq_some hr⟩

/-- If the paths differ, a file is reported at most once, with its own remark. -/
theorem filter_skipped (hdistinct : (visits.map fun v => FileRules.pathUnder root v.path).Nodup)
    {v : Visit} (hv : v ∈ visits) :
    (ofVisits root reason? visits).skipped.filter
        (fun r => r.path = FileRules.pathUnder root v.path) =
      ((reason? v).bind (remark? root v)).toList := by
  let report := fun v => (reason? v).bind (remark? root v)
  let named := fun r : Diagnostic => decide (r.path = FileRules.pathUnder root v.path)
  have hpath : ∀ w, ∀ r ∈ report w, r.path = FileRules.pathUnder root w.path := by
    intro w r hr
    obtain ⟨reason, -, hr⟩ := Option.bind_eq_some_iff.1 hr
    rw [remark?_eq_some hr]
    rfl
  have hothers : ∀ w ∈ visits, FileRules.pathUnder root v.path ≠ FileRules.pathUnder root w.path →
      (report w).toList.filter named = [] := by
    intro w _ hne
    refine List.filter_eq_nil_iff.2 fun r hr hnamed => hne ?_
    rw [← hpath w r (Option.mem_toList.1 hr), ← of_decide_eq_true hnamed]
  have hself : (report v).toList.filter named = (report v).toList :=
    List.filter_eq_self.2 fun r hr => decide_eq_true (hpath v r (Option.mem_toList.1 hr))
  have hperm : ((ofVisits root reason? visits).skipped.filter named).Perm (report v).toList := by
    refine (skipped_perm.filter named).trans (List.Perm.of_eq ?_)
    rw [List.filterMap_eq_flatMap_toList, List.filter_flatMap]
    exact (flatMap_eq_of_distinct hdistinct hv hothers).trans hself
  -- A list with at most one item has no other order.
  change _ = (report v).toList
  cases hreport : report v with
  | none =>
    rw [hreport] at hperm
    exact hperm.eq_nil
  | some r =>
    rw [hreport] at hperm
    exact List.perm_singleton.1 hperm

/-- Visits to different places give files in strictly increasing order. -/
theorem pairwise_files (hdistinct : (visits.map fun v => Path.place v.path).Nodup) :
    (ofVisits root reason? visits).files.Pairwise fun a b => Path.before a b = true := by
  let taken := (visits.filter fun v => (reason? v).isNone).map (·.path)
  have hplaces : (taken.map Path.place).Nodup := by
    rw [List.map_map]
    exact hdistinct.sublist (List.filter_sublist.map _)
  exact (pairwise_lt_mergeSort Path.place (fun _ _ => notAfter_iff) hplaces).imp Path.before_iff.2

theorem pairwise_skipped :
    (ofVisits root reason? visits).skipped.Pairwise fun a b => a.notAfter b = true := by
  have hsorted := pairwise_le_mergeSort Diagnostic.place (fun _ _ => Diagnostic.notAfter_iff)
    (visits.filterMap fun v => (reason? v).bind (remark? root v))
  exact hsorted.imp fun h => Diagnostic.notAfter_iff.2 h

/-- A file is taken if there is no reason to leave it out, and else reported once with the reason.
-/
structure Answers (found : Discovery) (path relative : String) (reason? : Option SkipReason) :
    Prop where
  taken : path ∈ found.files ↔ reason? = none
  reported : (found.skipped.filter fun r => r.path = relative) =
    (reason?.map (Diagnostic.skipped relative)).toList

/-- A file is neither taken nor reported. -/
structure PassesOver (found : Discovery) (path relative : String) : Prop where
  not_taken : path ∉ found.files
  not_reported : ∀ r ∈ found.skipped, r.path ≠ relative

variable {d : Disk} {top names : List String} {entries : List (String × Entry)}

/-- A root has one visit for each leaf whose directory can be opened. -/
theorem walk_pathOf (hd : d.Sound) (htop : d.at? top = some (.directory entries)) :
    (d.walk (Disk.pathOf top)).filterMap Except.toOption =
      (openLeaves top entries).map (Leaf.visit top) := by
  obtain ⟨hentries, hnames⟩ := Entry.Sound.of_descend? hd htop
  cases hentries with | directory distinct hinside inner
  rw [Disk.walk, Disk.resolve_pathOf hd htop (by simp)]
  by_cases hlength : (Disk.pathOf top).utf8ByteSize ≤ Disk.maxPathBytes
  · rw [if_pos hlength]
    exact visitsIn_eq_of_visits fun p hp =>
      (inner p hp).visits_eq hnames (hinside p hp) hlength
  · rw [if_neg hlength, openLeaves_of_long (Nat.not_le.1 hlength)]
    rfl

/-- Discovery sorts the places that the walk can open. -/
theorem run_pathOf (hd : d.Sound) (htop : d.at? top = some (.directory entries))
    (rules : FileRules) :
    run d rules (Disk.pathOf top) = ofVisits (Disk.pathOf top)
      (fun v => rules.skipReason? (Disk.pathOf top) (d.isFile v.path) v.path)
      ((openLeaves top entries).map (Leaf.visit top)) := by
  rw [run, walk_pathOf hd htop]

theorem isName_of_mem_leavesIn (h : (Entry.directory entries).Sound) {l : Leaf}
    (hl : l ∈ leavesIn entries) : l.names ≠ [] ∧ ∀ n ∈ l.names, Path.IsName n.toList := by
  obtain ⟨e, hfound, hkind⟩ := Option.bind_eq_some_iff.1 ((mem_leavesIn h).1 hl).1
  refine ⟨fun hnil => ?_, fun n hn => ((h.of_descend? hfound).2 n hn).isName⟩
  rw [hnil] at hfound
  obtain rfl := Option.some.inj hfound
  cases hkind

section Tree

variable (htop : ∀ n ∈ top, Path.IsName n.toList) (hentries : (Entry.directory entries).Sound)
include htop hentries

/-- A visit has the path of its place. -/
theorem pathUnder_visit {l : Leaf} (hl : l ∈ leavesIn entries) :
    FileRules.pathUnder (Disk.pathOf top) (l.visit top).path = "/".intercalate l.names := by
  obtain ⟨hne, hnames⟩ := isName_of_mem_leavesIn hentries hl
  exact FileRules.pathUnder_pathOf htop hnames hne

/-- The parts of its path tell a leaf from the other places under the root. -/
theorem names_eq_of_parts_visit_eq {l : Leaf} (hl : l ∈ leavesIn entries)
    (hnames : ∀ n ∈ names, Path.IsName n.toList)
    (heq : Path.parts (l.visit top).path = Path.parts (Disk.pathOf (top ++ names))) :
    l.names = names := by
  obtain ⟨-, hl⟩ := isName_of_mem_leavesIn hentries hl
  exact List.append_cancel_left (Path.eq_of_parts_pathOf_eq
    (List.forall_mem_append.2 ⟨htop, hl⟩) (List.forall_mem_append.2 ⟨htop, hnames⟩) heq)

/-- No two visits have the same path under the root. -/
theorem nodup_pathUnder : (((openLeaves top entries).map (Leaf.visit top)).map fun v =>
    FileRules.pathUnder (Disk.pathOf top) v.path).Nodup := by
  rw [List.map_map]
  refine (nodup_map_leavesIn hentries fun l hl l' hl' heq => ?_).sublist
    (List.filter_sublist.map _)
  rw [Function.comp_apply, Function.comp_apply, pathUnder_visit htop hentries hl,
    pathUnder_visit htop hentries hl'] at heq
  exact Path.eq_of_intercalate_names_eq (isName_of_mem_leavesIn hentries hl).2
    (isName_of_mem_leavesIn hentries hl').2 heq

theorem nodup_place : (((openLeaves top entries).map (Leaf.visit top)).map fun v =>
    Path.place v.path).Nodup := by
  rw [List.map_map]
  refine (nodup_map_leavesIn hentries fun l hl l' hl' heq => ?_).sublist
    (List.filter_sublist.map _)
  exact names_eq_of_parts_visit_eq htop hentries hl (isName_of_mem_leavesIn hentries hl').2
    (List.map_injective_iff.2 Path.Part.place_injective heq)

variable (reason? : Visit → Option SkipReason)

/-- A leaf that is visited is taken if there is no reason to leave it out. -/
theorem taken_iff_of_mem {l : Leaf} (hl : l ∈ openLeaves top entries) :
    (l.visit top).path ∈ (ofVisits (Disk.pathOf top) reason?
      ((openLeaves top entries).map (Leaf.visit top))).files ↔ reason? (l.visit top) = none := by
  have hleaf := List.mem_of_mem_filter hl
  rw [mem_files]
  constructor
  · rintro ⟨v, hv, hreason, hpath⟩
    obtain ⟨l', hl', rfl⟩ := List.mem_map.1 hv
    have hleaf' := List.mem_of_mem_filter hl'
    have hnames : l'.names = l.names := names_eq_of_parts_visit_eq htop hentries hleaf'
      (isName_of_mem_leavesIn hentries hleaf).2 (congrArg Path.parts hpath)
    have hlink : some l'.isLink = some l.isLink := by
      rw [← ((mem_leavesIn hentries).1 hleaf').1, ← ((mem_leavesIn hentries).1 hleaf).1, hnames]
    rw [← hreason, Leaf.visit, Leaf.visit, hnames, Option.some.inj hlink]
  · exact fun hreason => ⟨_, List.mem_map_of_mem hl, hreason, rfl⟩

/-- A leaf that is visited is reported with its own remark, if it has one. -/
theorem reported_of_mem {l : Leaf} (hl : l ∈ openLeaves top entries) :
    (ofVisits (Disk.pathOf top) reason?
        ((openLeaves top entries).map (Leaf.visit top))).skipped.filter
          (fun r => r.path = "/".intercalate l.names) =
      ((reason? (l.visit top)).bind (remark? (Disk.pathOf top) (l.visit top))).toList := by
  rw [← pathUnder_visit htop hentries (List.mem_of_mem_filter hl)]
  exact filter_skipped (nodup_pathUnder htop hentries) (List.mem_map_of_mem hl)

/-- A place that is no open leaf is passed over. -/
theorem passesOver_of_not_mem (hnames : ∀ n ∈ names, Path.IsName n.toList)
    (h : ∀ l ∈ openLeaves top entries, l.names ≠ names) :
    (ofVisits (Disk.pathOf top) reason?
      ((openLeaves top entries).map (Leaf.visit top))).PassesOver
      (Disk.pathOf (top ++ names)) ("/".intercalate names) where
  not_taken hmem := by
    obtain ⟨v, hv, -, hpath⟩ := mem_files.1 hmem
    obtain ⟨l, hl, rfl⟩ := List.mem_map.1 hv
    exact h l hl (names_eq_of_parts_visit_eq htop hentries (List.mem_of_mem_filter hl) hnames
      (congrArg Path.parts hpath))
  not_reported r hr hpath := by
    obtain ⟨v, hv, reason, rfl⟩ := exists_visit_of_mem_skipped hr
    obtain ⟨l, hl, rfl⟩ := List.mem_map.1 hv
    have hleaf := List.mem_of_mem_filter hl
    rw [Diagnostic.path, pathUnder_visit htop hentries hleaf] at hpath
    exact h l hl
      (Path.eq_of_intercalate_names_eq (isName_of_mem_leavesIn hentries hleaf).2 hnames hpath)

/-- What is taken or reported is a leaf. -/
theorem exists_leaf_of_mem (hat : d.at? top = some (.directory entries)) :
    (∀ path ∈ (ofVisits (Disk.pathOf top) reason?
        ((openLeaves top entries).map (Leaf.visit top))).files,
      ∃ names, d.HasLeaf (top ++ names) ∧ path = Disk.pathOf (top ++ names)) ∧
    ∀ r ∈ (ofVisits (Disk.pathOf top) reason?
        ((openLeaves top entries).map (Leaf.visit top))).skipped,
      ∃ names reason, d.HasLeaf (top ++ names) ∧ r = .skipped ("/".intercalate names) reason := by
  have hleaf : ∀ l ∈ leavesIn entries, d.HasLeaf (top ++ l.names) := fun l hl =>
    ⟨l.isLink, Disk.at?_append hat ▸ ((mem_leavesIn hentries).1 hl).1⟩
  constructor
  · intro path hpath
    obtain ⟨v, hv, -, rfl⟩ := mem_files.1 hpath
    obtain ⟨l, hl, rfl⟩ := List.mem_map.1 hv
    exact ⟨l.names, hleaf l (List.mem_of_mem_filter hl), rfl⟩
  · intro r hr
    obtain ⟨v, hv, reason, rfl⟩ := exists_visit_of_mem_skipped hr
    obtain ⟨l, hl, rfl⟩ := List.mem_map.1 hv
    have hl := List.mem_of_mem_filter hl
    exact ⟨l.names, reason, hleaf l hl, by rw [pathUnder_visit htop hentries hl]⟩

end Tree

section File

variable (hd : d.Sound) (hat : d.at? top = some (.directory entries)) {f : StoredFile}
  (hfile : d.at? (top ++ names) = some (.file f)) (rules : FileRules)
include hd hat hfile

/-- A file is met unless it lies in a directory that never holds sources. -/
theorem file_mem_leavesIn_iff :
    ⟨names, false⟩ ∈ leavesIn entries ↔ names.dropLast.any isInternalName = false := by
  obtain ⟨hentries, -⟩ := Entry.Sound.of_descend? hd hat
  rw [Disk.at?_append hat] at hfile
  rw [mem_leavesIn hentries, hfile]
  exact and_iff_right rfl

/-- A file that its path leads to is taken, or reported with the first reason that applies. -/
theorem answers_file (houter : names.dropLast.any isInternalName = false)
    (hlength : (Disk.pathOf (top ++ names)).utf8ByteSize ≤ Disk.maxPathBytes) :
    (run d rules (Disk.pathOf top)).Answers (Disk.pathOf (top ++ names)) ("/".intercalate names)
      (FileRules.precedence.find? (rules.applies names)) := by
  obtain ⟨hentries, hnames⟩ := Entry.Sound.of_descend? hd hat
  have htop : ∀ n ∈ top, Path.IsName n.toList := fun n hn => (hnames n hn).isName
  have hleaf := (file_mem_leavesIn_iff hd hat hfile).2 houter
  obtain ⟨hne, hvalid⟩ := isName_of_mem_leavesIn hentries hleaf
  have hopen : ⟨names, false⟩ ∈ openLeaves top entries := by
    refine List.mem_filter.2 ⟨hleaf, decide_eq_true (le_trans ?_ hlength)⟩
    have hle := Path.utf8ByteSize_pathOf_le (top ++ names.dropLast) [names.getLast hne]
    rwa [List.append_assoc, List.dropLast_concat_getLast hne] at hle
  have hreason : rules.skipReason? (Disk.pathOf top) (d.isFile (Disk.pathOf (top ++ names)))
      (Disk.pathOf (top ++ names)) = FileRules.precedence.find? (rules.applies names) := by
    rw [Disk.isFile_pathOf hd hfile, decide_eq_true hlength, rules.skipReason?_pathOf htop hvalid hne]
  have hnotAFile : FileRules.precedence.find? (rules.applies names) ≠ some .notAFile := fun h =>
    absurd (List.mem_of_find?_eq_some h) (by decide)
  rw [run_pathOf hd hat, ← hreason]
  refine ⟨taken_iff_of_mem htop hentries _ hopen, (reported_of_mem htop hentries _ hopen).trans ?_⟩
  rw [← pathUnder_visit htop hentries hleaf, ← bind_remark? (hreason ▸ hnotAFile)]
  rfl

/-- A file in a directory that never holds sources is passed over, and so is a file whose path is too
long. -/
theorem passesOver_file (h : names.dropLast.any isInternalName = true ∨
      Disk.maxPathBytes < (Disk.pathOf (top ++ names)).utf8ByteSize) :
    (run d rules (Disk.pathOf top)).PassesOver (Disk.pathOf (top ++ names))
      ("/".intercalate names) := by
  obtain ⟨hentries, hnames⟩ := Entry.Sound.of_descend? hd hat
  have htop : ∀ n ∈ top, Path.IsName n.toList := fun n hn => (hnames n hn).isName
  rw [run_pathOf hd hat]
  by_cases hopen : ⟨names, false⟩ ∈ openLeaves top entries
  · -- The walk meets it, finds no file, and has no remark on what is no link.
    have hleaf := List.mem_of_mem_filter hopen
    have hlong := h.resolve_left (by simp [(file_mem_leavesIn_iff hd hat hfile).1 hleaf])
    have hreason : rules.skipReason? (Disk.pathOf top) (d.isFile (Disk.pathOf (top ++ names)))
        (Disk.pathOf (top ++ names)) = some .notAFile := by
      rw [Disk.isFile_pathOf hd hfile, decide_eq_false (Nat.not_le.2 hlong)]
      rfl
    have htaken := taken_iff_of_mem htop hentries
      (fun v => rules.skipReason? (Disk.pathOf top) (d.isFile v.path) v.path) hopen
    have hreported := reported_of_mem htop hentries
      (fun v => rules.skipReason? (Disk.pathOf top) (d.isFile v.path) v.path) hopen
    simp only [Leaf.visit, hreason] at htaken hreported
    refine ⟨fun hmem => ?_, fun r hr hpath => ?_⟩
    · cases htaken.1 hmem
    · have hnone := List.mem_filter (p := fun r => r.path = "/".intercalate names) |>.2
        ⟨hr, decide_eq_true hpath⟩
      rw [hreported] at hnone
      cases hnone
  · refine passesOver_of_not_mem htop hentries _ (fun n hn => ?_) fun l hl heq => hopen ?_
    · rw [Disk.at?_append hat] at hfile
      exact ((hentries.of_descend? hfile).2 n hn).isName
    · have hkind := ((mem_leavesIn hentries).1 (List.mem_of_mem_filter hl)).1
      rw [heq, ← Disk.at?_append hat, hfile] at hkind
      obtain ⟨_, isLink⟩ := l
      obtain rfl : _ = names := heq
      obtain rfl : false = isLink := Option.some.inj hkind
      exact hl

end File

/-- On a sound disk every file under a root has an answer if its path is not too long: it is taken,
or it is reported once with the first reason that applies. All files with longer paths are passed
over, like those in directories that never hold sources. Nothing else than files and links is listed,
and both lists are in order. -/
theorem run_answers_files_of_short_paths (hd : d.Sound) {given root : String}
    (hroot : d.canonicalRoot given = .ok root) (rules : FileRules) :
    (∀ s, FileRules.ofSettings d root s = .ok rules →
      d.discover given s = .ok (run d rules root)) ∧
    (∃ top entries, root = Disk.pathOf top ∧ d.at? top = some (.directory entries) ∧
      (∀ names f, d.at? (top ++ names) = some (.file f) →
        (names.dropLast.any isInternalName = false →
          (Disk.pathOf (top ++ names)).utf8ByteSize ≤ Disk.maxPathBytes →
          (run d rules root).Answers (Disk.pathOf (top ++ names)) ("/".intercalate names)
            (FileRules.precedence.find? (rules.applies names))) ∧
        (names.dropLast.any isInternalName = true ∨
            Disk.maxPathBytes < (Disk.pathOf (top ++ names)).utf8ByteSize →
          (run d rules root).PassesOver (Disk.pathOf (top ++ names)) ("/".intercalate names))) ∧
      (∀ path ∈ (run d rules root).files,
        ∃ names, d.HasLeaf (top ++ names) ∧ path = Disk.pathOf (top ++ names)) ∧
      ∀ r ∈ (run d rules root).skipped,
        ∃ names reason, d.HasLeaf (top ++ names) ∧ r = .skipped ("/".intercalate names) reason) ∧
    ((run d rules root).files.Pairwise fun a b => Path.before a b = true) ∧
    (run d rules root).files.Nodup ∧
    (run d rules root).skipped.Pairwise fun a b => a.notAfter b = true := by
  obtain ⟨top, entries, rfl, hat⟩ := Disk.exists_at?_of_canonicalRoot hroot
  obtain ⟨hentries, hnames⟩ := Entry.Sound.of_descend? hd hat
  have htop : ∀ n ∈ top, Path.IsName n.toList := fun n hn => (hnames n hn).isName
  have hrun := run_pathOf hd hat rules
  refine ⟨fun s hrules => ?_, ⟨top, entries, rfl, hat, fun names f hfile =>
    ⟨answers_file hd hat hfile rules, passesOver_file hd hat hfile rules⟩, ?_⟩, ?_⟩
  · simp only [Disk.discover, hroot, hrules]
  · rw [hrun]
    exact exists_leaf_of_mem htop hentries _ hat
  · have hfiles : (run d rules (Disk.pathOf top)).files.Pairwise fun a b =>
        Path.before a b = true := by
      rw [hrun]
      exact pairwise_files (nodup_place htop hentries)
    refine ⟨hfiles, hfiles.imp fun hbefore heq => ?_, pairwise_skipped⟩
    rw [heq, Path.before_iff] at hbefore
    exact lt_irrefl _ hbefore

/-- A project with a file for every reason and one for none. -/
def sampleDisk : Disk :=
  let file := Entry.file ⟨⟨.empty⟩, none⟩
  ⟨[("work", .directory [
    ("build", file),
    ("gen", .directory [("c.py", file)]),
    ("main.rs", file),
    ("node_modules", .directory [("a.js", file)]),
    ("notes.txt", file),
    ("src", .directory [("a.rs", file)])])]⟩

/-- Rules that ignore one directory and exclude one file. -/
def sampleRules : FileRules where
  ignores path isDir := path = "src" && isDir
  admits path := path ≠ "gen/c.py"

/-- Each reason is the first one for some file. -/
theorem sampleDisk_answers : sampleDisk.Sound ∧ sampleDisk.canonicalRoot "/work" = .ok "/work" ∧
    (run sampleDisk sampleRules "/work").Answers "/work/main.rs" "main.rs" none ∧
    (run sampleDisk sampleRules "/work").Answers "/work/build" "build" (some .ignoredInternal) ∧
    (run sampleDisk sampleRules "/work").Answers "/work/src/a.rs" "src/a.rs"
      (some .ignoredByGitignore) ∧
    (run sampleDisk sampleRules "/work").Answers "/work/notes.txt" "notes.txt"
      (some .unsupportedLanguage) ∧
    (run sampleDisk sampleRules "/work").Answers "/work/gen/c.py" "gen/c.py"
      (some .excludedByGlob) ∧
    (run sampleDisk sampleRules "/work").PassesOver "/work/node_modules/a.js"
      "node_modules/a.js" := by
  have hd : sampleDisk.Sound := by decide
  have hwork : sampleDisk.at? ["work"] = some (.directory _) := rfl
  have hroot : sampleDisk.canonicalRoot "/work" = .ok "/work" := Disk.canonicalRoot_pathOf hd hwork
  obtain ⟨-, ⟨top, entries, hpath, hat, hfiles, -⟩, -⟩ :=
    run_answers_files_of_short_paths hd hroot sampleRules
  obtain rfl : ["work"] = top := Path.eq_of_parts_pathOf_eq
    (fun n hn => ((Entry.Sound.of_descend? hd hwork).2 n hn).isName)
    (fun n hn => ((Entry.Sound.of_descend? hd hat).2 n hn).isName) (congrArg Path.parts hpath)
  have hanswers : ∀ names f reason?, sampleDisk.at? ("work" :: names) = some (.file f) →
      names.dropLast.any isInternalName = false →
      (Disk.pathOf ("work" :: names)).utf8ByteSize ≤ Disk.maxPathBytes →
      FileRules.precedence.find? (sampleRules.applies names) = reason? →
      (run sampleDisk sampleRules "/work").Answers (Disk.pathOf ("work" :: names))
        ("/".intercalate names) reason? := by
    rintro names f reason? hfile houter hlength rfl
    exact (hfiles names f hfile).1 houter hlength
  refine ⟨hd, hroot, ?_, ?_, ?_, ?_, ?_, ?_⟩
  · exact hanswers ["main.rs"] _ _ rfl (by decide) (by decide) (by decide)
  · exact hanswers ["build"] _ _ rfl (by decide) (by decide) (by decide)
  · exact hanswers ["src", "a.rs"] _ _ rfl (by decide) (by decide) (by decide)
  · exact hanswers ["notes.txt"] _ _ rfl (by decide) (by decide) (by decide)
  · exact hanswers ["gen", "c.py"] _ _ rfl (by decide) (by decide) (by decide)
  · exact (hfiles ["node_modules", "a.js"] _ rfl).2 (.inl (by decide))

/-- The longest name of a directory. -/
def longDirectory : String :=
  String.ofList (List.replicate 255 'd')

/-- The longest name of a source file. -/
def longFile : String :=
  String.ofList (List.replicate 252 'f' ++ ".py".toList)

/-- The names of a file under fifteen directories. -/
def deepNames : List String :=
  List.replicate 15 longDirectory ++ [longFile]

/-- A project with this file only. -/
def deepDisk : Disk :=
  ⟨[("work", .directory (Entry.put (.file ⟨⟨.empty⟩, none⟩) deepNames []))]⟩

/-- The directory of the file can be opened, so the walk meets it, and no directory on the way is
internal. But its path has more bytes than a path may have, and it is neither taken nor reported,
whatever the rules are. -/
theorem deepDisk_passes_over : deepDisk.Sound ∧ deepDisk.canonicalRoot "/work" = .ok "/work" ∧
    (∃ f, deepDisk.at? ("work" :: deepNames) = some (.file f)) ∧
    deepNames.dropLast.any isInternalName = false ∧
    .ok ⟨Disk.pathOf ("work" :: deepNames), false⟩ ∈ deepDisk.walk "/work" ∧
    ∀ rules, (run deepDisk rules "/work").PassesOver (Disk.pathOf ("work" :: deepNames))
      ("/".intercalate deepNames) := by
  have hne : deepNames ≠ [] := List.append_ne_nil_of_right_ne_nil _ (List.cons_ne_nil _ _)
  have hnames : ∀ n ∈ deepNames, Disk.IsFileName n := by
    refine List.forall_mem_append.2 ⟨fun n hn => ?_, List.forall_mem_singleton.2 ?_⟩
    · rw [List.eq_of_mem_replicate hn]
      exact Disk.isFileName_ofList (by decide +kernel) (by decide +kernel) (by decide +kernel)
    · exact Disk.isFileName_ofList (by decide +kernel) (by decide +kernel) (by decide +kernel)
  have hd : deepDisk.Sound := by
    refine .directory (List.nodup_singleton _) ?_ ?_
    · decide
    · exact List.forall_mem_singleton.2 (Entry.sound_put (.file _) hnames)
  have hwork : deepDisk.at? ["work"] =
    some (.directory (Entry.put (.file ⟨⟨.empty⟩, none⟩) deepNames [])) := rfl
  have hfile : deepDisk.at? (["work"] ++ deepNames) = some (.file ⟨⟨.empty⟩, none⟩) :=
    (Disk.at?_append hwork).trans (Entry.descend?_put _ hne)
  have houter : deepNames.dropLast.any isInternalName = false := by decide +kernel
  have hlong : Disk.maxPathBytes < (Disk.pathOf (["work"] ++ deepNames)).utf8ByteSize := by
    decide +kernel
  have hleaf := (file_mem_leavesIn_iff hd hwork hfile).2 houter
  have hopen := List.mem_filter.2 ⟨hleaf, (by decide +kernel : Leaf.isOpen ["work"] _ = true)⟩
  have hmet := List.mem_map_of_mem (f := Leaf.visit ["work"]) hopen
  rw [← openLeaves, ← walk_pathOf hd hwork] at hmet
  obtain ⟨visit, hvisit, hok⟩ := List.mem_filterMap.1 hmet
  refine ⟨hd, Disk.canonicalRoot_pathOf hd hwork, ⟨_, hfile⟩, houter, ?_, fun rules =>
    passesOver_file hd hwork hfile rules (.inr hlong)⟩
  cases visit with
  | error e => cases hok
  | ok v =>
    obtain rfl := Option.some.inj hok
    exact hvisit

end Discovery

end CodeImpact

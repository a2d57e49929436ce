import CodeImpact.Project.Discovery
import CodeImpact.Proofs.NormalPaths
import Mathlib.Data.List.Infix

/-!
# Places on a disk

A place is a list of names from the root of a disk. Its path is read back, name by name: the path
under a directory, the directories around a file, and the entry itself. A directory that a path
leads to, through links and steps up, has a place of its own, which its canonical path gives.
-/

namespace CodeImpact

namespace Path

/-! ## The segments of names -/

variable {names : List String}

/-- The segments of names. -/
def namedSegments (names : List String) : List Segment :=
  names.map fun n => (n.toList, some (.name n))

/-- Names joined by slashes are found again. -/
theorem splitOn_names (h : ∀ n ∈ names, IsName n.toList) (hne : names ≠ []) :
    ("/".intercalate names).toList.splitOn '/' = names.map String.toList := by
  rw [String.toList_intercalate]
  refine List.splitOn_intercalate '/' ?_ (by simpa using hne)
  rw [List.forall_mem_map]
  exact fun n hn => (h n hn).no_slash

theorem map_partOf?_names (h : ∀ n ∈ names, IsName n.toList) :
    (names.map String.toList).map (fun t => (t, partOf? t)) = namedSegments names := by
  rw [List.map_map]
  refine List.map_congr_left fun n hn => ?_
  rw [Function.comp_apply, partOf?_of_isName (h n hn), String.ofList_toList]

/-- A relative path of names has just their segments. -/
theorem segments_names (h : ∀ n ∈ names, IsName n.toList) (hne : names ≠ []) :
    segments ("/".intercalate names) = namedSegments names := by
  rw [← map_partOf?_names h, segments, splitOn_names h hne]
  cases names with
  | nil => exact absurd rfl hne
  | cons n names =>
    have hn := h n List.mem_cons_self
    cases names <;> simp [hn.ne_nil, hn.ne_here]

/-- A path from the root starts with an empty segment. -/
theorem splitOn_pathOf (h : ∀ n ∈ names, IsName n.toList) (hne : names ≠ []) :
    (Disk.pathOf names).toList.splitOn '/' = [] :: names.map String.toList := by
  have htext : (Disk.pathOf names).toList = [] ++ '/' :: ("/".intercalate names).toList := by
    simp [Disk.pathOf]
  rw [htext, List.splitOn_append_cons_self_of_not_mem List.not_mem_nil, splitOn_names h hne]

/-- An absolute path of names has the root before their segments. -/
theorem segments_pathOf (h : ∀ n ∈ names, IsName n.toList) (hne : names ≠ []) :
    segments (Disk.pathOf names) = ([], some .root) :: namedSegments names := by
  rw [← map_partOf?_names h, segments, splitOn_pathOf h hne]
  cases names with
  | nil => exact absurd rfl hne
  | cons n names => rfl

theorem ofSegments_named (names : List String) :
    ofSegments (namedSegments names) = "/".intercalate names := by
  have htext : ofSegments (namedSegments names) =
      String.ofList (['/'].intercalate ((namedSegments names).map (·.1))) := by
    match names with
    | [] => rfl
    | [_] => rfl
    | _ :: _ :: _ => rfl
  rw [htext, ← String.toList_inj, String.toList_ofList, String.toList_intercalate, namedSegments,
    List.map_map]
  rfl

theorem dropWhile_named (names : List String) :
    (namedSegments names).dropWhile (fun s => s.2.isNone) = namedSegments names := by
  cases names <;> rfl

theorem trimEnd_named (names : List String) :
    trimEnd (namedSegments names) = namedSegments names := by
  have hreverse : (namedSegments names).reverse = namedSegments names.reverse :=
    List.map_reverse.symm
  rw [trimEnd, hreverse, dropWhile_named, ← hreverse, List.reverse_reverse]

/-- Names are taken away one by one. -/
theorem dropParts_named (top names : List String) :
    dropParts (top.map .name) (namedSegments (top ++ names)) = some (namedSegments names) := by
  induction top with
  | nil => rw [List.map_nil, List.nil_append, dropParts]
  | cons n top ih =>
    rw [List.map_cons, List.cons_append, namedSegments, List.map_cons, dropParts, if_pos rfl]
    exact ih

/-! ## Paths of places -/

/-- A path from the root has the root and its names for its parts. -/
theorem parts_pathOf (h : ∀ n ∈ names, IsName n.toList) :
    parts (Disk.pathOf names) = .root :: names.map .name := by
  have hpath : Disk.pathOf names = ofParts (.root :: names.map .name) := by
    simp [Disk.pathOf, ofParts, Function.comp_def, Part.text]
  rw [hpath]
  exact parts_ofParts (.absolute names h)

theorem parts_names (h : ∀ n ∈ names, IsName n.toList) :
    parts ("/".intercalate names) = names.map .name := by
  have hpath : "/".intercalate names = ofParts (names.map .name) := by
    cases names <;> simp [ofParts, Function.comp_def, Part.text]
  rw [hpath]
  exact parts_ofParts (.relative 0 names h)

/-- A relative path determines its names. -/
theorem eq_of_intercalate_names_eq {names' : List String} (h : ∀ n ∈ names, IsName n.toList)
    (h' : ∀ n ∈ names', IsName n.toList) (heq : "/".intercalate names = "/".intercalate names') :
    names = names' := by
  have hparts := congrArg parts heq
  rw [parts_names h, parts_names h'] at hparts
  exact List.map_injective_iff.2 (fun _ _ => Part.name.inj) hparts

/-- A path from the root determines its names. -/
theorem eq_of_parts_pathOf_eq {names' : List String} (h : ∀ n ∈ names, IsName n.toList)
    (h' : ∀ n ∈ names', IsName n.toList)
    (heq : parts (Disk.pathOf names) = parts (Disk.pathOf names')) : names = names' := by
  rw [parts_pathOf h, parts_pathOf h'] at heq
  exact List.map_injective_iff.2 (fun _ _ => Part.name.inj) (List.cons.inj heq).2

/-- A path under a directory is the path of the names behind those of the directory. -/
theorem relativeTo?_pathOf {top : List String} (htop : ∀ n ∈ top, IsName n.toList)
    (h : ∀ n ∈ names, IsName n.toList) (hne : names ≠ []) :
    relativeTo? (Disk.pathOf (top ++ names)) (Disk.pathOf top) = some ("/".intercalate names) := by
  have hall : ∀ n ∈ top ++ names, IsName n.toList := List.forall_mem_append.2 ⟨htop, h⟩
  have hdrop : dropParts (.root :: top.map .name) (segments (Disk.pathOf (top ++ names))) =
      some (namedSegments names) := by
    rw [segments_pathOf hall (by simp [hne]), dropParts, if_pos rfl, dropParts_named]
  simp only [relativeTo?, parts_pathOf htop, hdrop, Option.map_some, List.isEmpty_cons,
    Bool.false_eq_true, if_false, dropWhile_named, trimEnd_named, ofSegments_named]

/-- The parent of a path lacks its last name. -/
theorem parent?_names {name : String} (h : ∀ n ∈ names ++ [name], IsName n.toList) :
    parent? ("/".intercalate (names ++ [name])) = some ("/".intercalate names) := by
  have hsegments : (trimEnd (segments ("/".intercalate (names ++ [name])))).reverse =
      (name.toList, some (.name name)) :: (namedSegments names).reverse := by
    rw [segments_names h (by simp), trimEnd_named, namedSegments, List.map_append,
      List.reverse_append]
    rfl
  simp only [parent?, hsegments, List.reverse_reverse, trimEnd_named, ofSegments_named]

theorem toList_pathOf (hne : names ≠ []) :
    (Disk.pathOf names).toList = names.flatMap fun n => '/' :: n.toList := by
  obtain ⟨n, names, rfl⟩ := List.exists_cons_of_ne_nil hne
  rw [Disk.pathOf, String.toList_append, String.toList_intercalate, List.map_cons,
    Text.intercalate_cons_eq, List.flatMap_cons, List.flatMap_map]
  rfl

/-- Paths from the root are put together like their names. -/
theorem pathOf_append {names' : List String} (hne : names ≠ []) (hne' : names' ≠ []) :
    Disk.pathOf (names ++ names') = Disk.pathOf names ++ Disk.pathOf names' := by
  rw [← String.toList_inj, String.toList_append, toList_pathOf hne, toList_pathOf hne',
    toList_pathOf (List.append_ne_nil_of_left_ne_nil hne names'), List.flatMap_append]

/-- No path is shorter than that of a directory around it. -/
theorem utf8ByteSize_pathOf_le (names names' : List String) :
    (Disk.pathOf names).utf8ByteSize ≤ (Disk.pathOf (names ++ names')).utf8ByteSize := by
  by_cases hne' : names' = []
  · rw [hne', List.append_nil]
  by_cases hne : names = []
  · subst hne
    rw [List.nil_append, Disk.pathOf, Disk.pathOf, String.utf8ByteSize_append,
      String.utf8ByteSize_append]
    exact Nat.add_le_add_left (Nat.zero_le _) _
  · rw [pathOf_append hne hne', String.utf8ByteSize_append]
    exact Nat.le_add_right _ _

theorem getLast?_pathOf (h : ∀ n ∈ names, IsName n.toList) (hne : names ≠ []) :
    (Disk.pathOf names).toList.getLast? ≠ some '/' := by
  intro hlast
  obtain ⟨lead, name, rfl⟩ := (List.eq_nil_or_concat' names).resolve_left hne
  have hname := h name (by simp)
  rw [toList_pathOf hne, List.flatMap_append, List.flatMap_singleton,
    List.getLast?_append_of_ne_nil _ (List.cons_ne_nil _ _),
    List.getLast?_cons_of_ne_nil hname.ne_nil] at hlast
  exact hname.no_slash (List.mem_of_getLast? hlast)

/-- A name in a directory has the path of the directory before it. -/
theorem join_pathOf {name : String} (h : ∀ n ∈ names, IsName n.toList)
    (hname : IsName name.toList) :
    join (Disk.pathOf names) name = Disk.pathOf (names ++ [name]) := by
  have hrelative : isAbsolute name = false :=
    decide_eq_false fun hhead => hname.no_slash (List.mem_of_head? hhead)
  rw [join, hrelative, if_neg (by decide)]
  by_cases hne : names = []
  · subst hne
    rfl
  · have htext : (Disk.pathOf names).isEmpty = false := by
      simp [Disk.pathOf]
    rw [htext, Bool.false_or, if_neg (by simpa using getLast?_pathOf h hne), ← String.toList_inj,
      toList_pathOf (by simp), List.flatMap_append, ← toList_pathOf hne]
    simp

end Path

/-! ## Sound disks -/

/-- A name that a file system can hold. -/
structure Disk.IsFileName (name : String) : Prop where
  isName : Path.IsName name.toList
  no_nul : '\x00' ∉ name.toList
  short : name.utf8ByteSize ≤ Disk.maxNameBytes

theorem Disk.isFileName_ofList {chars : List Char}
    (hname : chars ≠ [] ∧ chars ≠ ['.'] ∧ chars ≠ ['.', '.'] ∧ '/' ∉ chars)
    (hnul : '\x00' ∉ chars) (hshort : (String.ofList chars).utf8ByteSize ≤ Disk.maxNameBytes) :
    Disk.IsFileName (String.ofList chars) := by
  obtain ⟨hempty, hhere, hup, hslash⟩ := hname
  refine ⟨?_, ?_, hshort⟩
  · rw [String.toList_ofList]
    exact ⟨hempty, hhere, hup, hslash⟩
  · rwa [String.toList_ofList]

/-- The names in each directory are different, and a file system can hold them. -/
inductive Entry.Sound : Entry → Prop
  | file (f : StoredFile) : Sound (.file f)
  | link (target : String) : Sound (.link target)
  | directory {entries : List (String × Entry)} (distinct : (entries.map (·.1)).Nodup)
      (names : ∀ p ∈ entries, Disk.IsFileName p.1) (inner : ∀ p ∈ entries, Sound p.2) :
      Sound (.directory entries)

instance : DecidablePred Disk.IsFileName := fun name =>
  decidable_of_iff
    ((name.toList ≠ [] ∧ name.toList ≠ ['.'] ∧ name.toList ≠ ['.', '.'] ∧ '/' ∉ name.toList) ∧
      '\x00' ∉ name.toList ∧ name.utf8ByteSize ≤ Disk.maxNameBytes)
    ⟨fun h => ⟨⟨h.1.1, h.1.2.1, h.1.2.2.1, h.1.2.2.2⟩, h.2.1, h.2.2⟩,
      fun h => ⟨⟨h.1.1, h.1.2, h.1.3, h.1.4⟩, h.2, h.3⟩⟩

namespace Entry

/-- A directory is sound iff its names are distinct and possible, and its entries are sound. -/
theorem sound_directory_iff {entries : List (String × Entry)} :
    (Entry.directory entries).Sound ↔ (entries.map (·.1)).Nodup ∧
      (∀ p ∈ entries, Disk.IsFileName p.1) ∧ ∀ p ∈ entries, p.2.Sound := by
  constructor
  · intro h
    cases h with | directory distinct names inner
    exact ⟨distinct, names, inner⟩
  · exact fun h => .directory h.1 h.2.1 h.2.2

mutual

/-- Whether an entry is sound. -/
def decideSound : (e : Entry) → Decidable e.Sound
  | .file f => .isTrue (.file f)
  | .link target => .isTrue (.link target)
  | .directory entries =>
    have := decideSoundIn entries
    decidable_of_iff _ sound_directory_iff.symm

/-- Whether the entries of a directory are sound. -/
def decideSoundIn : (entries : List (String × Entry)) → Decidable (∀ p ∈ entries, p.2.Sound)
  | [] => .isTrue (List.forall_mem_nil _)
  | (name, e) :: rest =>
    have := e.decideSound
    have := decideSoundIn rest
    decidable_of_iff (e.Sound ∧ ∀ p ∈ rest, p.2.Sound)
      (List.forall_mem_cons (p := fun p => p.2.Sound) (a := (name, e)) (l := rest)).symm

end

instance : DecidablePred Entry.Sound :=
  decideSound

/-- What a name stands for is an entry of the directory. -/
theorem mem_of_lookup? {name : String} {entries : List (String × Entry)} {e : Entry}
    (h : lookup? name entries = some e) : (name, e) ∈ entries := by
  induction entries with
  | nil => cases h
  | cons p entries ih =>
    rw [lookup?] at h
    split at h
    next heq =>
      obtain rfl := Option.some.inj h
      exact heq ▸ List.mem_cons_self
    next => exact List.mem_cons_of_mem _ (ih h)

/-- If names are distinct, every entry is what its name stands for. -/
theorem lookup?_of_mem {name : String} {entries : List (String × Entry)} {e : Entry}
    (hdistinct : (entries.map (·.1)).Nodup) (h : (name, e) ∈ entries) :
    lookup? name entries = some e := by
  induction entries with
  | nil => cases h
  | cons p entries ih =>
    obtain ⟨hnew, hdistinct⟩ := List.nodup_cons.1 hdistinct
    rw [lookup?]
    rcases List.mem_cons.1 h with rfl | h
    · rw [if_pos rfl]
    · have hother : p.1 ≠ name := by
        rintro rfl
        exact hnew (List.mem_map.2 ⟨_, h, rfl⟩)
      rw [if_neg hother, ih hdistinct h]

/-- A way can be taken in two steps. -/
theorem descend?_append (names names' : List String) (e : Entry) :
    e.descend? (names ++ names') = (e.descend? names).bind (descend? names') := by
  induction names generalizing e with
  | nil => rfl
  | cons n names ih =>
    cases e with
    | directory entries =>
      simp only [List.cons_append, descend?, Option.bind_assoc]
      exact Option.bind_congr fun e _ => ih e
    | file f => rfl
    | link target => rfl

/-- On a sound disk all that a way leads to is sound. -/
theorem Sound.of_descend? {e e' : Entry} {names : List String} (he : e.Sound)
    (h : e.descend? names = some e') : e'.Sound ∧ ∀ n ∈ names, Disk.IsFileName n := by
  induction names generalizing e with
  | nil =>
    obtain rfl := Option.some.inj h
    exact ⟨he, by simp⟩
  | cons n names ih =>
    cases he with
    | file f => cases h
    | link target => cases h
    | directory distinct hnames inner =>
      obtain ⟨e, hfound, h⟩ := Option.bind_eq_some_iff.1 h
      have hmem := mem_of_lookup? hfound
      obtain ⟨he', hrest⟩ := ih (inner _ hmem) h
      exact ⟨he', List.forall_mem_cons.2 ⟨hnames _ hmem, hrest⟩⟩

/-! ## A single place -/

theorem put_cons {leaf : Entry} {name : String} {names : List String} (hne : names ≠ []) :
    put leaf (name :: names) [] = [(name, .directory (put leaf names []))] := by
  obtain ⟨n, names, rfl⟩ := List.exists_cons_of_ne_nil hne
  rfl

/-- What is put at a place of an empty directory is there. -/
theorem descend?_put (leaf : Entry) {names : List String} (hne : names ≠ []) :
    (Entry.directory (put leaf names [])).descend? names = some leaf := by
  induction names with
  | nil => exact absurd rfl hne
  | cons name names ih =>
    by_cases hrest : names = []
    · subst hrest
      simp [put, place, lookup?, descend?]
    · rw [put_cons hrest, descend?, lookup?, if_pos rfl, Option.bind_some, ih hrest]

/-- A directory with one way through it is sound. -/
theorem sound_put {leaf : Entry} (hleaf : leaf.Sound) {names : List String}
    (hnames : ∀ n ∈ names, Disk.IsFileName n) : (Entry.directory (put leaf names [])).Sound := by
  induction names with
  | nil => exact .directory List.nodup_nil (by simp [put]) (by simp [put])
  | cons name names ih =>
    obtain ⟨hname, hnames⟩ := List.forall_mem_cons.1 hnames
    by_cases hrest : names = []
    · subst hrest
      have hput : put leaf [name] [] = [(name, leaf)] := by simp [put, place, lookup?]
      rw [hput]
      exact .directory (by simp) (by simpa using hname) (by simpa using hleaf)
    · rw [put_cons hrest]
      exact .directory (by simp) (by simpa using hname) (by simpa using ih hnames)

end Entry

namespace Disk

variable {d : Disk}

/-- The entry at a place; links are not followed. -/
def at? (d : Disk) (names : List String) : Option Entry :=
  (Entry.directory d.entries).descend? names

/-- All directories are sound. -/
def Sound (d : Disk) : Prop :=
  (Entry.directory d.entries).Sound

instance (d : Disk) : Decidable d.Sound :=
  (Entry.directory d.entries).decideSound

/-- What lies below a directory is found from it. -/
theorem at?_append {top names : List String} {entries : List (String × Entry)}
    (h : d.at? top = some (.directory entries)) :
    d.at? (top ++ names) = (Entry.directory entries).descend? names := by
  rw [at?, Entry.descend?_append, ← at?, h, Option.bind_some]

/-! ## Following paths -/

/-- What a path resolves to is at the names that it resolves to. -/
theorem at?_of_follow {links : Nat} {here todo names : List String} {e : Entry}
    (h : d.follow links here todo = .ok (names, e)) : d.at? names = some e := by
  fun_induction follow d links here todo <;> simp_all [at?]

/-- Names that lead to an entry which is no link are followed as they are. -/
theorem follow_names {links : Nat} {here names : List String} {e : Entry}
    (hnames : ∀ n ∈ names, IsFileName n) (hfound : d.at? (here ++ names) = some e)
    (hlink : ∀ target, e ≠ .link target) :
    d.follow links here names = .ok (here ++ names, e) := by
  induction names generalizing here with
  | nil =>
    rw [List.append_nil] at hfound
    rw [follow, ← at?, hfound, List.append_nil]
  | cons n names ih =>
    obtain ⟨hn, hnames⟩ := List.forall_mem_cons.1 hnames
    have hstep := hfound
    rw [at?, Entry.descend?_append] at hstep
    obtain ⟨e', hhere, hstep⟩ := Option.bind_eq_some_iff.1 hstep
    cases e' with
    | file f => cases hstep
    | link target => cases hstep
    | directory entries =>
      obtain ⟨e', hlookup, hstep⟩ := Option.bind_eq_some_iff.1 hstep
      have hfind : find entries n = .ok (some e') := by
        rw [find, if_neg (Nat.not_lt.2 hn.short), hlookup]
      have hnext : d.follow links (here ++ [n]) names = .ok (here ++ n :: names, e) := by
        rw [List.append_cons here n names] at hfound ⊢
        exact ih hnames hfound
      have hempty : n ≠ "" := fun heq => hn.isName.ne_nil (by simp [heq])
      have hdot : n ≠ "." := fun heq => hn.isName.ne_here (by simp [heq])
      have hup : n ≠ ".." := fun heq => hn.isName.ne_up (by simp [heq])
      rw [follow, hhere]
      simp only [hempty, hdot, hup, hfind, decide_false, Bool.or_false, Bool.false_eq_true,
        if_false]
      cases e' with
      | file f => exact hnext
      | directory entries => exact hnext
      | link target =>
        -- A link is the last entry on the way, as nothing is below it.
        cases names with
        | nil => exact absurd (Option.some.inj hstep).symm (hlink target)
        | cons m names => cases hstep

theorem follow_empty {links : Nat} {here rest : List String} {entries : List (String × Entry)}
    (h : d.at? here = some (.directory entries)) :
    d.follow links here ("" :: rest) = d.follow links here rest := by
  rw [follow, ← at?, h]
  rfl

theorem isAbsolute_pathOf (names : List String) : Path.isAbsolute (pathOf names) = true := by
  simp [Path.isAbsolute, pathOf]

/-- A path of names stands for something unless it is too long. -/
theorem fault?_pathOf {names : List String} (h : ∀ n ∈ names, IsFileName n) :
    fault? (pathOf names) =
      if (pathOf names).utf8ByteSize ≤ maxPathBytes then none else some .nameTooLong := by
  have hnul : (pathOf names).toList.contains '\x00' = false := by
    by_cases hne : names = []
    · subst hne
      decide
    · rw [Path.toList_pathOf hne]
      simpa using fun n hn => (h n hn).no_nul
  rw [fault?, hnul, if_neg (by decide), isAbsolute_pathOf, if_pos rfl]
  by_cases hlength : (pathOf names).utf8ByteSize ≤ maxPathBytes
  · rw [if_pos hlength, if_neg (Nat.not_lt.2 hlength)]
  · rw [if_neg hlength, if_pos (Nat.not_le.1 hlength)]

/-- The path of an entry that is no link leads to its place. -/
theorem follow_pathOf (hd : d.Sound) {names : List String} {e : Entry}
    (hfound : d.at? names = some e) (hlink : ∀ target, e ≠ .link target) (links : Nat) :
    d.follow links [] (segments (pathOf names)) = .ok (names, e) := by
  obtain ⟨-, hnames⟩ := Entry.Sound.of_descend? hd hfound
  have hfollow : d.follow links [] names = .ok (names, e) := follow_names hnames hfound hlink
  have hstart : d.at? [] = some (.directory d.entries) := rfl
  by_cases hne : names = []
  · subst hne
    have hsegments : segments (pathOf []) = ["", ""] := rfl
    rw [hsegments, follow_empty hstart, follow_empty hstart, hfollow]
  · have hsegments : segments (pathOf names) = "" :: names := by
      rw [segments, Path.splitOn_pathOf (fun n hn => (hnames n hn).isName) hne, List.map_cons,
        List.map_map]
      simp
    rw [hsegments, follow_empty hstart, hfollow]

/-- The canonical path of a directory is the path of its place. -/
theorem exists_at?_of_canonicalRoot {root r : String} (h : d.canonicalRoot root = .ok r) :
    ∃ top entries, r = pathOf top ∧ d.at? top = some (.directory entries) := by
  unfold canonicalRoot at h
  split at h
  next =>
    dsimp only at h
    split at h
    next top entries hfound =>
      exact ⟨top, entries, (Except.ok.inj h).symm, at?_of_follow hfound⟩
    next => cases h
    next => cases h
  next => cases h

/-- The path of the place of a directory is canonical. -/
theorem canonicalRoot_pathOf (hd : d.Sound) {top : List String} {entries : List (String × Entry)}
    (h : d.at? top = some (.directory entries)) :
    d.canonicalRoot (pathOf top) = .ok (pathOf top) := by
  simp only [canonicalRoot, isAbsolute_pathOf, if_true, follow_pathOf hd h (by simp)]

/-- The path of an entry that is no link leads to it, unless it is too long. -/
theorem resolve_pathOf (hd : d.Sound) {names : List String} {e : Entry}
    (hfound : d.at? names = some e) (hlink : ∀ target, e ≠ .link target) :
    d.resolve (pathOf names) =
      if (pathOf names).utf8ByteSize ≤ maxPathBytes then .ok (names, e)
      else .error .nameTooLong := by
  obtain ⟨-, hnames⟩ := Entry.Sound.of_descend? hd hfound
  rw [resolve, fault?_pathOf hnames]
  split <;> split <;> simp_all [follow_pathOf hd hfound hlink]

/-- The path of a file leads to it iff it is not too long. -/
theorem isFile_pathOf (hd : d.Sound) {names : List String} {f : StoredFile}
    (hfound : d.at? names = some (.file f)) :
    d.isFile (pathOf names) = decide ((pathOf names).utf8ByteSize ≤ maxPathBytes) := by
  rw [isFile, resolve_pathOf hd hfound (by simp)]
  by_cases hlength : (pathOf names).utf8ByteSize ≤ maxPathBytes <;> simp [hlength]

end Disk

end CodeImpact

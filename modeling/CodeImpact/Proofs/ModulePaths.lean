import CodeImpact.Proofs.Resolution
import Mathlib.Data.List.Nodup
import Mathlib.Data.List.TakeWhile

/-!
# Paths of modules

The file of a module gives it a path: the directories below the innermost `src` directory, and the
name of the file unless it stands for its directory. A crate path leads to the file of its longest
prefix that is the path of a module in the same `src` directory. What it may lose at its end depends
on how it starts: all but the root, or nothing of the module that it starts from.
-/

namespace CodeImpact

/-! ## The module of a file -/

/-- What the name of a file adds to the path of its directory, which is this far below `src`. -/
def ownSegment (below : List Path.Part) (stem : String) : List String :=
  if below = [] ∧ (stem = "lib" ∨ stem = "main") ∨ stem = "mod" then [] else [stem]

/-- The module of a file: it lies in the innermost `src` directory of the file, and its path goes
from the root of the crate through the directories below. -/
inductive ModulePath.Of (file : String) : ModulePath → Prop
  | intro {outer below : List Path.Part} {last : Path.Part} {stem : String}
      (parts : Path.parts file = outer ++ .name "src" :: below ++ [last])
      (inner : .name "src" ∉ below) (text : last.text = stem ++ ".rs") :
      Of file ⟨outer ++ [.name "src"], "crate" :: below.map (·.text) ++ ownSegment below stem⟩

/-- The segments of a module's path as its text spells them. -/
def ModulePath.spelled (m : ModulePath) : List String :=
  ProjectFiles.splitPath (ProjectFiles.modulePathText m.segments).toList

namespace ProjectFiles

theorem modulePath?_of_parts {file stem : String} {outer below : List Path.Part} {last : Path.Part}
    (parts : Path.parts file = outer ++ .name "src" :: below ++ [last])
    (inner : .name "src" ∉ below) (text : last.text = stem ++ ".rs") :
    modulePath? file =
      some ⟨outer ++ [.name "src"], "crate" :: below.map (·.text) ++ ownSegment below stem⟩ := by
  have hdirs : (Path.parts file).dropLast.reverse =
      below.reverse ++ .name "src" :: outer.reverse := by
    rw [parts, List.dropLast_concat]
    simp
  have hbelow : ∀ part ∈ below.reverse, decide (part ≠ .name "src") = true := by
    intro part hpart
    simp only [decide_eq_true_eq]
    rintro rfl
    exact inner (List.mem_reverse.1 hpart)
  have hlast : (Path.parts file).getLast? = some last := by
    rw [parts, List.getLast?_concat]
  have hstem : Text.beforeTail? ".rs".toList last.text.toList = some stem.toList := by
    rw [text, String.toList_append, Text.beforeTail?_append]
  simp only [modulePath?, hlast, hdirs, hstem, Option.bind_eq_bind, Option.bind_some,
    List.takeWhile_append_of_pos hbelow, List.dropWhile_append_of_pos hbelow]
  simp [ownSegment]

theorem of_modulePath? {file : String} {m : ModulePath} (h : modulePath? file = some m) :
    m.Of file := by
  have hvalue := h
  simp only [modulePath?, Option.bind_eq_bind, Option.bind_eq_some_iff] at hvalue
  obtain ⟨last, hlast, stem, hstem, hvalue⟩ := hvalue
  obtain ⟨dirs, hfile⟩ := List.getLast?_eq_some_iff.1 hlast
  rw [hfile, List.dropLast_concat] at hvalue
  obtain ⟨part, outer, hdrop⟩ : ∃ part outer,
      dirs.reverse.dropWhile (· ≠ .name "src") = part :: outer := by
    refine List.exists_cons_of_ne_nil fun hnil => ?_
    rw [hnil, List.reverse_nil, List.isEmpty_nil, if_pos rfl] at hvalue
    cases hvalue
  have hsrc : part = .name "src" := by
    have hhead := List.head?_dropWhile_not (fun x : Path.Part => decide (x ≠ .name "src"))
      dirs.reverse
    rw [hdrop] at hhead
    simpa using hhead
  have hparts : Path.parts file = outer.reverse ++ .name "src" ::
      (dirs.reverse.takeWhile (· ≠ .name "src")).reverse ++ [last] := by
    have hdirs := congrArg List.reverse (List.takeWhile_append_dropWhile
      (p := fun x : Path.Part => decide (x ≠ .name "src")) (l := dirs.reverse))
    rw [hdrop, hsrc, List.reverse_append, List.reverse_cons, List.reverse_reverse,
      List.append_assoc] at hdirs
    rw [hfile]
    exact congrArg (· ++ [last]) hdirs.symm
  have hinner : .name "src" ∉ (dirs.reverse.takeWhile (· ≠ .name "src")).reverse := by
    intro hmem
    simpa using List.mem_takeWhile_imp (List.mem_reverse.1 hmem)
  have htext : last.text = String.ofList stem ++ ".rs" := by
    rw [← String.toList_inj, Text.beforeTail?_eq_some hstem]
    simp
  rw [modulePath?_of_parts hparts hinner htext] at h
  obtain rfl := Option.some.inj h
  exact .intro hparts hinner htext

theorem modulePath?_eq_some_iff {file : String} {m : ModulePath} :
    modulePath? file = some m ↔ m.Of file := by
  constructor
  · exact of_modulePath?
  · rintro ⟨parts, inner, text⟩
    exact modulePath?_of_parts parts inner text

/-! ## Segments -/

/-- A path is split at its separators, from the left. -/
theorem splitPath_of_cut? {text first rest : List Char}
    (h : Text.cut? [':', ':'] text = some (first, rest)) :
    splitPath text = String.ofList first :: splitPath rest := by
  rw [splitPath]
  split
  next heq =>
    rw [h] at heq
    obtain ⟨rfl, rfl⟩ := Prod.mk.inj (Option.some.inj heq)
    rfl
  next heq => simp [h] at heq

theorem splitPath_of_uncut {text : List Char} (h : Text.cut? [':', ':'] text = none) :
    splitPath text = [String.ofList text] := by
  rw [splitPath]
  split
  next heq => simp [h] at heq
  next => rfl

/-- No segment holds a separator. -/
theorem not_infix_of_mem_splitPath {text : List Char} {s : String} (h : s ∈ splitPath text) :
    ¬ [':', ':'] <:+: s.toList := by
  induction text using splitPath.induct with
  | case1 text first rest hcut ih =>
    rw [splitPath_of_cut? hcut] at h
    rcases List.mem_cons.1 h with rfl | h
    · simpa using Text.not_infix_of_cut? (List.cons_ne_nil _ _) hcut
    · exact ih h
  | case2 text hcut =>
    rw [splitPath_of_uncut hcut] at h
    obtain rfl := List.mem_singleton.1 h
    rintro ⟨lead, tail, htext⟩
    rw [String.toList_ofList, List.append_assoc] at htext
    exact Text.cut?_ne_none lead [':', ':'] tail (htext ▸ hcut)

theorem toList_modulePathText (segments : List String) :
    (modulePathText segments).toList = [':', ':'].intercalate (segments.map String.toList) := by
  simp [modulePathText, String.toList_intercalate]

/-- Segments without colons are read back from their text. -/
theorem splitPath_modulePathText {segments : List String}
    (h : ∀ s ∈ segments, ':' ∉ s.toList) (hne : segments ≠ []) :
    splitPath (modulePathText segments).toList = segments := by
  rw [toList_modulePathText]
  induction segments with
  | nil => exact absurd rfl hne
  | cons s rest ih =>
    obtain ⟨hs, hrest⟩ := List.forall_mem_cons.1 h
    cases rest with
    | nil =>
      have hcut := Text.cut?_of_not_mem (List.mem_cons_self (a := ':') (l := [':'])) hs
      simp [splitPath_of_uncut hcut]
    | cons t rest =>
      rw [List.map_cons, List.map_cons, List.intercalate_cons_cons, ← List.map_cons,
        List.append_assoc, splitPath_of_cut? (Text.cut?_append hs _ _), ih hrest (by simp),
        String.ofList_toList]

/-- Texts of paths tell modules apart if no part of theirs is empty or has a colon. -/
theorem eq_of_modulePathText_eq {kept segments : List String}
    (hkept : ∀ s ∈ kept, ¬ [':', ':'] <:+: s.toList)
    (hsegments : ∀ s ∈ segments, s ≠ "" ∧ ':' ∉ s.toList) (hne : segments ≠ [])
    (h : modulePathText kept = modulePathText segments) : kept = segments := by
  have htexts := congrArg String.toList h
  rw [toList_modulePathText, toList_modulePathText] at htexts
  have hlists := Text.eq_of_intercalate_eq (by simpa using hkept)
    (by simpa using hsegments) (by simpa using hne) htexts
  exact (List.map_inj_right fun _ _ => String.toList_inj.1).1 hlists

/-! ## Steps up -/

/-- Each `super` leads one module up. -/
theorem climb_of_supers {current rest : List String} {n : Nat} (hn : n < current.length)
    (hrest : rest.head? ≠ some "super") :
    climb current (List.replicate n "super" ++ rest) =
      some (current.take (current.length - n), rest) := by
  induction n generalizing current with
  | zero =>
    have hstop : climb current rest = some (current, rest) := by
      unfold climb
      split
      next => simp at hrest
      next => rfl
    simpa using hstop
  | succ n ih =>
    have hlong : ¬ current.length ≤ 1 := by omega
    have hshorter : n < current.dropLast.length := by
      rw [List.length_dropLast]
      omega
    rw [List.replicate_succ, List.cons_append, climb, if_neg hlong, ih hshorter,
      List.length_dropLast, List.dropLast_eq_take, List.take_take]
    congr 3
    omega

/-- No `super` leads out of the crate. -/
theorem climb_of_many_supers {current : List String} {n : Nat} (hne : current ≠ [])
    (hn : current.length ≤ n) (rest : List String) :
    climb current (List.replicate n "super" ++ rest) = none := by
  induction n generalizing current with
  | zero => exact absurd (List.eq_nil_of_length_eq_zero (Nat.le_zero.1 hn)) hne
  | succ n ih =>
    rw [List.replicate_succ, List.cons_append, climb]
    split
    next => rfl
    next hlong =>
      have hlength : current.dropLast.length = current.length - 1 := List.length_dropLast
      refine ih (fun hnil => ?_) (by omega)
      rw [hnil, List.length_nil] at hlength
      omega

/-! ## Files of modules -/

variable {p : ProjectFiles} {crateDir : List Path.Part} {segments path kept : List String}
  {least : Nat} {f fromFile origin : String} {m : ModulePath}

/-- A file of the project that has this path in this `src` directory. -/
structure Indexed (p : ProjectFiles) (crateDir : List Path.Part) (segments : List String)
    (f : String) : Prop where
  mem : f ∈ p.files
  extension : Path.extension? f = some "rs"
  module : ModulePath.Of f ⟨crateDir, segments⟩

/-- No two files share their path and `src` directory, and no part of a path has a colon. -/
structure DistinctModules (p : ProjectFiles) : Prop where
  unique : ∀ {crateDir segments f g}, p.Indexed crateDir segments f →
    p.Indexed crateDir segments g → f = g
  plain : ∀ f ∈ p.files, ∀ part ∈ Path.parts f, ':' ∉ part.text.toList

theorem stem_ne_empty {stem : String} {last : Path.Part} {dirs : List Path.Part}
    (hext : Path.extension? f = some "rs") (hparts : Path.parts f = dirs ++ [last])
    (htext : last.text = stem ++ ".rs") : stem ≠ "" := by
  rintro rfl
  have hlast : (Path.parts f).getLast? = some last := by rw [hparts, List.getLast?_concat]
  rw [Path.extension?, Path.name?, hlast] at hext
  cases last with
  | name text =>
    have hname : text = ".rs" := by simpa [Path.Part.text] using htext
    subst hname
    exact absurd hext (by decide)
  | _ => cases hext

theorem mem_ownSegment {s stem : String} {below : List Path.Part} (h : s ∈ ownSegment below stem) :
    s = stem := by
  unfold ownSegment at h
  split at h
  next => cases h
  next => exact List.mem_singleton.1 h

/-- The segments of a module have no colons if the path of its file has none. -/
theorem colon_not_mem_segments (hm : m.Of f)
    (hplain : ∀ part ∈ Path.parts f, ':' ∉ part.text.toList) :
    ∀ s ∈ m.segments, ':' ∉ s.toList := by
  obtain @⟨outer, below, last, stem, parts, inner, text⟩ := hm
  intro s hs
  rcases List.mem_append.1 hs with hs | hs
  · rcases List.mem_cons.1 hs with rfl | hs
    · decide
    · obtain ⟨part, hpart, rfl⟩ := List.mem_map.1 hs
      exact hplain part (by simp [parts, hpart])
  · have hcolon := hplain last (by simp [parts])
    rw [text, String.toList_append, List.mem_append, not_or] at hcolon
    rw [mem_ownSegment hs]
    exact hcolon.1

theorem Indexed.segment_ne_empty (h : p.Indexed crateDir segments f) {s : String}
    (hs : s ∈ segments) : s ≠ "" := by
  obtain ⟨-, hext, @⟨outer, below, last, stem, parts, inner, text⟩⟩ := h
  rcases List.mem_append.1 hs with hs | hs
  · rcases List.mem_cons.1 hs with rfl | hs
    · decide
    · obtain ⟨part, hpart, rfl⟩ := List.mem_map.1 hs
      have hmem : part ∈ Path.parts f := by simp [parts, hpart]
      exact Path.text_ne_empty_of_mem_parts hmem
  · rw [mem_ownSegment hs]
    exact stem_ne_empty hext parts text

/-- The segments of a module can be told apart in the text of its path. -/
theorem Indexed.segments_plain (h : p.Indexed crateDir segments f) (hp : p.DistinctModules) :
    ∀ s ∈ segments, s ≠ "" ∧ ':' ∉ s.toList :=
  fun s hs => ⟨h.segment_ne_empty hs, colon_not_mem_segments h.module (hp.plain f h.mem) s hs⟩

theorem Indexed.exists_rest (h : p.Indexed crateDir segments f) :
    ∃ rest, segments = "crate" :: rest := by
  obtain ⟨-, -, hmodule⟩ := h
  cases hmodule
  exact ⟨_, rfl⟩

theorem indexed_of_moduleFile? (h : p.DistinctModules)
    (hkept : ∀ s ∈ kept, ¬ [':', ':'] <:+: s.toList)
    (hfile : p.moduleFile? crateDir kept = some f) : p.Indexed crateDir kept f := by
  obtain ⟨hmem, hext, n, hn, rfl, htext⟩ := exists_of_moduleFile? hfile
  have hindexed : p.Indexed n.crateDir n.segments f := ⟨hmem, hext, of_modulePath? hn⟩
  obtain ⟨rest, hrest⟩ := hindexed.exists_rest
  have hkept := eq_of_modulePathText_eq hkept (hindexed.segments_plain h)
    (hrest ▸ List.cons_ne_nil _ _) htext.symm
  rwa [hkept]

/-- A module path leads to the one file that has it. -/
theorem moduleFile?_eq_some_iff (h : p.DistinctModules)
    (hkept : ∀ s ∈ kept, ¬ [':', ':'] <:+: s.toList) :
    p.moduleFile? crateDir kept = some f ↔ p.Indexed crateDir kept f := by
  refine ⟨indexed_of_moduleFile? h hkept, fun hindexed => ?_⟩
  cases hfile : p.moduleFile? crateDir kept with
  | some g => rw [h.unique (indexed_of_moduleFile? h hkept hfile) hindexed]
  | none =>
    exact absurd rfl (not_exists_of_moduleFile? hfile hindexed.mem hindexed.extension
      (modulePath?_eq_some_iff.2 hindexed.module) rfl)

/-! ## The longest prefix -/

/-- The file of the longest prefix of a path that is a module; the prefix has at least so many
segments. -/
def IsLongest (p : ProjectFiles) (crateDir : List Path.Part) (path : List String) (least : Nat)
    (f : String) : Prop :=
  ∃ kept, kept <+: path ∧ least ≤ kept.length ∧ p.Indexed crateDir kept f ∧
    ∀ other g, other <+: path → p.Indexed crateDir other g → other.length ≤ kept.length

/-- No prefix of a path with at least so many segments is a module. -/
def Unindexed (p : ProjectFiles) (crateDir : List Path.Part) (path : List String) (least : Nat) :
    Prop :=
  ∀ kept g, kept <+: path → least ≤ kept.length → ¬ p.Indexed crateDir kept g

/-- The longer prefixes come first. -/
theorem pairwise_lengths (least k : Nat) :
    ((List.range k).reverse.takeWhile (least ≤ ·)).Pairwise (· > ·) := by
  refine List.Pairwise.sublist (List.takeWhile_sublist _) ?_
  rw [List.pairwise_reverse]
  exact List.pairwise_lt_range

/-- What is found has the longest module path that leads anywhere. -/
theorem isLongest_of_longestModule? (h : p.DistinctModules)
    (hpath : ∀ s ∈ path, ¬ [':', ':'] <:+: s.toList) (hleast : 1 ≤ least)
    (hfound : p.longestModule? crateDir path least = some f) :
    p.IsLongest crateDir path least f := by
  obtain ⟨longer, n, shorter, hlengths, hfile, hnone⟩ := List.findSome?_eq_some_iff.1 hfound
  have hn := mem_lengths.1 (hlengths ▸ List.mem_append_right longer List.mem_cons_self)
  have hplain : ∀ k, ∀ s ∈ path.take k, ¬ [':', ':'] <:+: s.toList :=
    fun k s hs => hpath s (List.mem_of_mem_take hs)
  have hlength : (path.take n).length = n := by
    rw [List.length_take]
    omega
  refine ⟨path.take n, List.take_prefix n path, by omega,
    (moduleFile?_eq_some_iff h (hplain n)).1 hfile, fun other g hother hg => ?_⟩
  rw [hlength]
  by_contra hlong
  -- a longer prefix was tried before and is not the path of a module
  have hmem := mem_lengths.2 ⟨(by omega : max least 1 ≤ other.length),
    Nat.lt_succ_of_le hother.length_le⟩
  have hpairwise := pairwise_lengths (max least 1) (path.length + 1)
  rw [hlengths] at hmem hpairwise
  have hshorter := (List.pairwise_cons.1 (List.pairwise_append.1 hpairwise).2.1).1
  have hlonger : other.length ∈ longer := by
    rcases List.mem_append.1 hmem with hmem | hmem
    · exact hmem
    · rcases List.mem_cons.1 hmem with heq | hmem
      · omega
      · have := hshorter _ hmem
        omega
  have hfile' := hnone _ hlonger
  rw [← List.prefix_iff_eq_take.1 hother,
    (moduleFile?_eq_some_iff h fun s hs => hpath s (hother.subset hs)).2 hg] at hfile'
  cases hfile'

/-- If nothing is found, no module path leads anywhere. -/
theorem unindexed_of_longestModule? (h : p.DistinctModules)
    (hpath : ∀ s ∈ path, ¬ [':', ':'] <:+: s.toList) (hleast : 1 ≤ least)
    (hnone : p.longestModule? crateDir path least = none) : p.Unindexed crateDir path least := by
  intro kept g hkept hlength hindexed
  have hplain : ∀ s ∈ kept, ¬ [':', ':'] <:+: s.toList := fun s hs => hpath s (hkept.subset hs)
  have hfile := moduleFile?_of_longestModule? hnone hkept (by omega)
  rw [(moduleFile?_eq_some_iff h hplain).2 hindexed] at hfile
  cases hfile

/-! ## Where paths lead -/

/-- The segments of a crate path; empty ones say nothing. -/
def pathSegments (origin : String) : List String :=
  (splitPath origin.toList).filter fun s => !s.isEmpty

/-- A path leads to the file of its longest prefix that is a module, and outside if there is none. -/
def LeadsTo (p : ProjectFiles) (crateDir : List Path.Part) (path : List String) (least : Nat)
    (origin : String) (target : Resolution) : Prop :=
  (∃ f, p.IsLongest crateDir path least f ∧ target = ⟨f, false⟩) ∨
    p.Unindexed crateDir path least ∧ target = ⟨origin, true⟩

/-- Where the paths that are written in a module lead. -/
structure FollowsPaths (p : ProjectFiles) (m : ModulePath) (target : String → Resolution) :
    Prop where
  /-- From the root of the crate, the root itself included. -/
  crate : ∀ origin rest, pathSegments origin = "crate" :: rest →
    p.LeadsTo m.crateDir ("crate" :: rest) 1 origin (target origin)
  /-- From the module, the module itself included. -/
  self : ∀ origin rest, pathSegments origin = "self" :: rest →
    p.LeadsTo m.crateDir (m.spelled ++ rest) m.spelled.length origin (target origin)
  /-- From the module so many levels up, that module itself included. -/
  super : ∀ origin n rest, pathSegments origin = List.replicate (n + 1) "super" ++ rest →
    rest.head? ≠ some "super" → n + 1 < m.spelled.length →
    p.LeadsTo m.crateDir (m.spelled.take (m.spelled.length - (n + 1)) ++ rest)
      (m.spelled.length - (n + 1)) origin (target origin)
  /-- There is no module above the root of the crate. -/
  above : ∀ origin n rest, pathSegments origin = List.replicate (n + 1) "super" ++ rest →
    m.spelled.length ≤ n + 1 → target origin = ⟨origin, true⟩
  /-- From the root of the crate, else from the module, with at least one segment of the path. -/
  plain : ∀ origin first rest, pathSegments origin = first :: rest →
    first ∉ ["crate", "self", "super"] →
    (∃ f, p.IsLongest m.crateDir ("crate" :: first :: rest) 2 f ∧ target origin = ⟨f, false⟩) ∨
      p.Unindexed m.crateDir ("crate" :: first :: rest) 2 ∧
        p.LeadsTo m.crateDir (m.spelled ++ first :: rest) (m.spelled.length + 1) origin
          (target origin)
  /-- A path without segments leads nowhere. -/
  empty : ∀ origin, pathSegments origin = [] → target origin = ⟨origin, true⟩

theorem not_infix_of_mem_pathSegments {s : String} (h : s ∈ pathSegments origin) :
    ¬ [':', ':'] <:+: s.toList :=
  not_infix_of_mem_splitPath (List.mem_filter.1 h).1

theorem spelled_ne_nil (m : ModulePath) : m.spelled ≠ [] := by
  unfold ModulePath.spelled
  rw [splitPath]
  split <;> simp

/-- The places of an origin are tried in order, and what is found nowhere is external. -/
theorem resolve_eq (hm : m.Of fromFile) (origin : String) :
    p.resolve origin fromFile .rust =
      (((modulePlaces origin m.spelled).findSome? fun place =>
        p.longestModule? m.crateDir place.1 place.2).map (⟨·, false⟩)).getD ⟨origin, true⟩ := by
  have hfound : p.find? origin fromFile .rust =
      (modulePlaces origin m.spelled).findSome? fun place =>
        p.longestModule? m.crateDir place.1 place.2 := by
    rw [find?, resolveCrate_eq, modulePath?_eq_some_iff.2 hm, Option.bind_some]
    rfl
  rw [resolve, hfound]
  split
  next heq => simp [heq]
  next heq => simp [heq]

theorem leadsTo_of_longestModule? (h : p.DistinctModules)
    (hpath : ∀ s ∈ path, ¬ [':', ':'] <:+: s.toList) (hleast : 1 ≤ least) (origin : String) :
    p.LeadsTo crateDir path least origin
      (((p.longestModule? crateDir path least).map (⟨·, false⟩)).getD ⟨origin, true⟩) := by
  cases hfound : p.longestModule? crateDir path least with
  | some f => exact .inl ⟨f, isLongest_of_longestModule? h hpath hleast hfound, rfl⟩
  | none => exact .inr ⟨unindexed_of_longestModule? h hpath hleast hfound, rfl⟩

/-- An origin with one place leads where the place does. -/
theorem leadsTo_of_place (h : p.DistinctModules) (hm : m.Of fromFile)
    (hplaces : modulePlaces origin m.spelled = [(path, least)])
    (hpath : ∀ s ∈ path, ¬ [':', ':'] <:+: s.toList) (hleast : 1 ≤ least) :
    p.LeadsTo m.crateDir path least origin (p.resolve origin fromFile .rust) := by
  rw [resolve_eq hm, hplaces, List.findSome?_singleton]
  exact leadsTo_of_longestModule? h hpath hleast origin

section

variable {first : String} {rest current : List String} {n : Nat}

/-- `crate` starts at the root of the crate. -/
theorem modulePlaces_crate (h : pathSegments origin = "crate" :: rest) (current : List String) :
    modulePlaces origin current = [("crate" :: rest, 1)] := by
  rw [pathSegments] at h
  rw [modulePlaces, h]
  rfl

/-- `self` starts at the module of the importing file. -/
theorem modulePlaces_self (h : pathSegments origin = "self" :: rest) (current : List String) :
    modulePlaces origin current = [(current ++ rest, current.length)] := by
  rw [pathSegments] at h
  rw [modulePlaces, h]
  rfl

/-- `super` starts above the module of the importing file. -/
theorem modulePlaces_super (h : pathSegments origin = List.replicate (n + 1) "super" ++ rest)
    (current : List String) : modulePlaces origin current =
      (climb current (List.replicate (n + 1) "super" ++ rest)).toList.map fun climbed =>
        (climbed.1 ++ climbed.2, climbed.1.length) := by
  rw [pathSegments] at h
  rw [modulePlaces, h]
  rfl

/-- Another name is looked up in the crate, and then in the module of the importing file. -/
theorem modulePlaces_plain (h : pathSegments origin = first :: rest)
    (hfirst : first ∉ ["crate", "self", "super"]) (current : List String) :
    modulePlaces origin current =
      [("crate" :: first :: rest, 2), (current ++ first :: rest, current.length + 1)] := by
  rw [pathSegments] at h
  rw [modulePlaces, h]
  split
  next heq => cases heq
  next heq => simp [(List.cons.inj heq).1] at hfirst
  next heq => simp [(List.cons.inj heq).1] at hfirst
  next heq => simp [(List.cons.inj heq).1] at hfirst
  next => rfl

/-- What stands behind segments of a module and what follows in a path hold no separator. -/
theorem not_infix_of_mem_append {lead base : List String}
    (h : pathSegments origin = lead ++ rest) (hbase : ∀ s ∈ base, s ∈ m.spelled) :
    ∀ s ∈ base ++ rest, ¬ [':', ':'] <:+: s.toList := by
  intro s hs
  rcases List.mem_append.1 hs with hs | hs
  · exact not_infix_of_mem_splitPath (hbase s hs)
  · exact not_infix_of_mem_pathSegments (h ▸ List.mem_append_right lead hs)

end

theorem followsPaths_resolve (h : p.DistinctModules) (hm : m.Of fromFile) :
    p.FollowsPaths m (p.resolve · fromFile .rust) where
  crate origin rest hsegments := by
    refine leadsTo_of_place h hm (modulePlaces_crate hsegments _) ?_ (Nat.le_refl 1)
    rw [← hsegments]
    exact fun s => not_infix_of_mem_pathSegments
  self origin rest hsegments := by
    have hpath := not_infix_of_mem_append (m := m) (hsegments.trans List.singleton_append.symm)
      fun s hs => hs
    exact leadsTo_of_place h hm (modulePlaces_self hsegments _) hpath
      (List.length_pos_iff.2 (spelled_ne_nil m))
  super origin n rest hsegments hrest hn := by
    have hplaces : modulePlaces origin m.spelled =
        [(m.spelled.take (m.spelled.length - (n + 1)) ++ rest, m.spelled.length - (n + 1))] := by
      rw [modulePlaces_super hsegments, climb_of_supers hn hrest]
      simp
    exact leadsTo_of_place h hm hplaces
      (not_infix_of_mem_append hsegments fun s hs => List.mem_of_mem_take hs) (by omega)
  above origin n rest hsegments hn := by
    rw [resolve_eq hm, modulePlaces_super hsegments, climb_of_many_supers (spelled_ne_nil m) hn]
    rfl
  plain origin first rest hsegments hfirst := by
    have hroot : ∀ s ∈ "crate" :: first :: rest, ¬ [':', ':'] <:+: s.toList := by
      rw [← hsegments, List.forall_mem_cons]
      exact ⟨by decide, fun s => not_infix_of_mem_pathSegments⟩
    have hown := not_infix_of_mem_append (m := m) (hsegments.trans (List.nil_append _).symm)
      fun s hs => hs
    rw [resolve_eq hm, modulePlaces_plain hsegments hfirst, List.findSome?_cons]
    cases hfound : p.longestModule? m.crateDir ("crate" :: first :: rest) 2 with
    | some f =>
      exact .inl ⟨f, isLongest_of_longestModule? h hroot (by omega) hfound, rfl⟩
    | none =>
      rw [List.findSome?_singleton]
      exact .inr ⟨unindexed_of_longestModule? h hroot (by omega) hfound,
        leadsTo_of_longestModule? h hown (by omega) origin⟩
  empty origin hsegments := by
    rw [pathSegments] at hsegments
    rw [resolve_eq hm, modulePlaces, hsegments]
    rfl

/-- The path of a module leads back to its file. -/
theorem FollowsPaths.own {target : String → Resolution} (h : p.FollowsPaths m target)
    (hp : p.DistinctModules) (hf : p.Indexed m.crateDir segments f) :
    target (modulePathText segments) = ⟨f, false⟩ := by
  obtain ⟨rest, hrest⟩ := hf.exists_rest
  have hplain := hf.segments_plain hp
  have hread : pathSegments (modulePathText segments) = segments := by
    rw [pathSegments, splitPath_modulePathText (fun s hs => (hplain s hs).2)
      (hrest ▸ List.cons_ne_nil _ _), List.filter_eq_self]
    intro s hs
    simpa using (hplain s hs).1
  rcases h.crate _ rest (hread.trans hrest) with ⟨g, ⟨kept, hkept, -, hg, hlongest⟩, htarget⟩ |
    ⟨hnone, -⟩
  · rw [← hrest] at hkept hlongest
    have hall : kept = segments :=
      hkept.eq_of_length_le (hlongest segments f List.prefix_rfl hf)
    have hfile : g = f := hp.unique (hall ▸ hg) hf
    rw [htarget, hfile]
  · rw [← hrest] at hnone
    exact absurd hf (hnone segments f List.prefix_rfl (by simp [hrest]))

theorem spelled_eq_segments (hm : m.Of fromFile)
    (hplain : ∀ part ∈ Path.parts fromFile, ':' ∉ part.text.toList) : m.spelled = m.segments := by
  refine splitPath_modulePathText (colon_not_mem_segments hm hplain) ?_
  obtain ⟨-, -, -⟩ := hm
  exact List.cons_ne_nil _ _

/-- In a module, the paths from the root of the crate, from the module, from a module above it and
plain ones each lead to the file of the longest prefix that is a module and keeps what they start
from. The path of every module leads back to its file. If the importing file has no colon in its own
path either, its module is spelled as its directories say. -/
theorem crate_paths_lead_to_longest_module (p : ProjectFiles) (h : p.DistinctModules)
    {fromFile : String} {m : ModulePath} (hm : m.Of fromFile) :
    p.FollowsPaths m (p.resolve · fromFile .rust) ∧
    (∀ segments f, p.Indexed m.crateDir segments f →
      p.resolve (modulePathText segments) fromFile .rust = ⟨f, false⟩) ∧
    ((∀ part ∈ Path.parts fromFile, ':' ∉ part.text.toList) → m.spelled = m.segments) :=
  ⟨followsPaths_resolve h hm,
    fun _ _ hf => (followsPaths_resolve h hm).own h hf, spelled_eq_segments hm⟩

/-- A crate whose root has a module with a module inside. -/
def graphCrate : ProjectFiles :=
  ofPaths "/p" ["/p/src/lib.rs", "/p/src/graph/mod.rs", "/p/src/graph/schema.rs"]

/-- The `src` directory of the crate. -/
def graphCrateDir : List Path.Part :=
  [.root, .name "p", .name "src"]

theorem distinctModules_graphCrate : graphCrate.DistinctModules where
  unique {crateDir segments f g} hf hg := by
    have hnodup : (graphCrate.files.map modulePath?).Nodup := by
      decide +kernel
    refine List.inj_on_of_nodup_map hnodup hf.mem hg.mem ?_
    rw [modulePath?_eq_some_iff.2 hf.module, modulePath?_eq_some_iff.2 hg.module]
  plain := by
    decide +kernel

theorem graphCrate_paths_followed :
    graphCrate.DistinctModules ∧
    graphCrate.FollowsPaths ⟨graphCrateDir, ["crate", "graph", "schema"]⟩
      (graphCrate.resolve · "/p/src/graph/schema.rs" .rust) ∧
    graphCrate.resolve "crate::graph" "/p/src/graph/schema.rs" .rust =
      ⟨"/p/src/graph/mod.rs", false⟩ := by
  have hfrom : ModulePath.Of "/p/src/graph/schema.rs"
      ⟨graphCrateDir, ["crate", "graph", "schema"]⟩ := of_modulePath? (by decide +kernel)
  have hpaths := crate_paths_lead_to_longest_module graphCrate distinctModules_graphCrate hfrom
  have hgraph : graphCrate.Indexed graphCrateDir ["crate", "graph"] "/p/src/graph/mod.rs" :=
    ⟨by decide +kernel, by decide +kernel, of_modulePath? (by decide +kernel)⟩
  have hown := hpaths.2.1 ["crate", "graph"] "/p/src/graph/mod.rs" hgraph
  have htext : modulePathText ["crate", "graph"] = "crate::graph" := by
    decide
  rw [htext] at hown
  exact ⟨distinctModules_graphCrate, hpaths.1, hown⟩

end ProjectFiles

end CodeImpact

import CodeImpact.Proofs.NormalPaths
import CodeImpact.Resolver

/-!
# What imports lead to

An origin may mean several places, depending on the language of the file. It leads to a file of the
project at one of them; it is external, and stays as it is written, only if no file is there. So
however an origin climbs, it never leads to a path that is no file of the project.
-/

namespace CodeImpact.ProjectFiles

variable (p : ProjectFiles) (origin fromFile : String)

/-! ## Places that an origin may mean -/

/-- The paths that a script import may mean. -/
def scriptPlaces : List String :=
  if isRelative origin then
    (Path.parent? fromFile).toList.flatMap fun dir =>
      scriptCandidates (Path.normalize (Path.join dir origin))
  else []

/-- The paths that a dotted module may mean. -/
def packagePlaces (root : String) : List String :=
  let dots := (origin.toList.takeWhile (· = '.')).length
  let bases :=
    if dots = 0 then [root, Path.join root "src"] else (ancestor? fromFile dots).toList
  bases.flatMap fun base => packageCandidates base (dotted (origin.toList.drop dots))

/-- The end of the path of a class in a package. -/
def classTail (package : List String) (name : String) : String :=
  Path.join (package.foldl Path.join "") (name ++ ".java")

/-- The paths of modules that a crate path may mean in a module; each may lose segments at its end,
but not so many that it gets shorter than the number with it. -/
def modulePlaces (current : List String) : List (List String × Nat) :=
  match (splitPath origin.toList).filter fun s => !s.isEmpty with
  | [] => []
  | "crate" :: rest => [("crate" :: rest, 1)]
  | "self" :: rest => [(current ++ rest, current.length)]
  | "super" :: rest =>
    (climb current ("super" :: rest)).toList.map fun climbed =>
      (climbed.1 ++ climbed.2, climbed.1.length)
  | segments => [("crate" :: segments, 2), (current ++ segments, current.length + 1)]

/-- A file that an origin may mean. -/
def IsMeant : Language → String → Prop
  | .javascript, f | .typescript, f | .tsx, f =>
    ∃ place ∈ scriptPlaces origin fromFile, Path.parts place = Path.parts f
  | .python, f =>
    ∃ place ∈ packagePlaces origin fromFile p.root, Path.parts place = Path.parts f
  | .java, f =>
    ∃ package name inner, dotted origin.toList = package ++ name :: inner ∧
      Path.name? f = some (name ++ ".java") ∧
      Path.parts (classTail package name) <:+ Path.parts f
  | .rust, f =>
    ∃ m n, modulePath? fromFile = some m ∧ Path.extension? f = some "rs" ∧ modulePath? f = some n ∧
      n.crateDir = m.crateDir ∧
      ∃ place ∈ modulePlaces origin (splitPath (modulePathText m.segments).toList),
        ∃ segments, segments <+: place.1 ∧ max place.2 1 ≤ segments.length ∧
          modulePathText n.segments = modulePathText segments

/-! ## Files at a path -/

variable {p origin fromFile} {places : List String} {path : String}

theorem contains_iff : p.contains path = true ↔ ∃ f ∈ p.files, Path.parts path = Path.parts f := by
  simp [contains, Path.same]

theorem exists_of_find?_contains (h : places.find? p.contains = some path) :
    ∃ f ∈ p.files, (∃ place ∈ places, Path.parts place = Path.parts f) ∧
      Path.parts path = Path.parts f := by
  obtain ⟨f, hf, hparts⟩ := contains_iff.1 (List.find?_some h)
  exact ⟨f, hf, ⟨path, List.mem_of_find?_eq_some h, hparts⟩, hparts⟩

theorem not_exists_of_find?_contains (h : places.find? p.contains = none) {f : String}
    (hf : f ∈ p.files) : ¬ ∃ place ∈ places, Path.parts place = Path.parts f := by
  rintro ⟨place, hplace, hparts⟩
  exact List.find?_eq_none.1 h place hplace (contains_iff.2 ⟨f, hf, hparts⟩)

theorem resolveScript_eq :
    p.resolveScript origin fromFile = (scriptPlaces origin fromFile).find? p.contains := by
  unfold resolveScript scriptPlaces
  split
  · cases Path.parent? fromFile <;> simp
  · rfl

/-- A dotted import is the first of its places that is a file. -/
theorem resolveDotted_eq :
    p.resolveDotted origin fromFile = (packagePlaces origin fromFile p.root).find? p.contains := by
  unfold resolveDotted packagePlaces
  dsimp only
  split
  · rw [Option.bind_some]
  · cases ancestor? fromFile (origin.toList.takeWhile (· = '.')).length <;> simp

/-! ## Files of classes -/

/-- The file of a class is one that its name means. -/
theorem isMeant_of_resolveClass (h : p.resolveClass origin = some path) :
    path ∈ p.files ∧ p.IsMeant origin fromFile .java path := by
  obtain ⟨i, -, h⟩ := List.exists_of_findSome?_eq_some h
  obtain ⟨name, hname, h⟩ := Option.bind_eq_some_iff.1 h
  have hfile : path ∈ p.named (name ++ ".java") := List.mem_of_find?_eq_some h
  obtain ⟨hmem, hlast⟩ := List.mem_filter.1 hfile
  obtain ⟨hi, rfl⟩ := List.getElem?_eq_some_iff.1 hname
  refine ⟨hmem, (dotted origin.toList).take i, _, (dotted origin.toList).drop (i + 1), ?_,
    by simpa using hlast, ?_⟩
  · rw [List.getElem_cons_drop, List.take_append_drop]
  · dsimp only at h
    have hends := List.find?_some h
    exact List.isSuffixOf_iff_suffix.1 hends

/-- If a class has no file, its name means none. -/
theorem not_isMeant_of_resolveClass (h : p.resolveClass origin = none) {f : String}
    (hf : f ∈ p.files) : ¬ p.IsMeant origin fromFile .java f := by
  rintro ⟨package, name, inner, hsegments, hname, htail⟩
  have hrange : package.length ∈ (List.range (dotted origin.toList).length).reverse := by
    simp [hsegments]
  have hnone := List.findSome?_eq_none_iff.1 h _ hrange
  have hget : (dotted origin.toList)[package.length]? = some name := by simp [hsegments]
  have htake : (dotted origin.toList).take package.length = package := by simp [hsegments]
  rw [hget, htake, Option.bind_some, List.find?_eq_none] at hnone
  exact hnone f (List.mem_filter.2 ⟨hf, by simpa using hname⟩)
    (List.isSuffixOf_iff_suffix.2 htail)

/-! ## Files of modules -/

variable {crateDir : List Path.Part} {segments : List String} {least : Nat}

theorem mem_lengths {n k : Nat} :
    n ∈ (List.range k).reverse.takeWhile (least ≤ ·) ↔ least ≤ n ∧ n < k := by
  -- the lengths descend, so nothing after the first one that is too short is long enough
  induction k with
  | zero => simp
  | succ k ih =>
    rw [List.range_succ, List.reverse_append, List.reverse_singleton, List.singleton_append,
      List.takeWhile_cons]
    by_cases hleast : least ≤ k
    · rw [if_pos (decide_eq_true hleast), List.mem_cons, ih]
      omega
    · have hnone : ¬ (least ≤ n ∧ n < k + 1) := by omega
      rw [if_neg (by simpa using hleast)]
      exact iff_of_false List.not_mem_nil hnone

/-- The file of a module has its path in the crate. -/
theorem exists_of_moduleFile? (h : p.moduleFile? crateDir segments = some path) :
    path ∈ p.files ∧ Path.extension? path = some "rs" ∧
      ∃ n, modulePath? path = some n ∧ n.crateDir = crateDir ∧
        modulePathText n.segments = modulePathText segments := by
  have hmem := List.mem_of_find?_eq_some h
  have hfile := List.find?_some h
  simpa [Option.any_eq_true] using And.intro hmem hfile

theorem not_exists_of_moduleFile? (h : p.moduleFile? crateDir segments = none) {f : String}
    (hf : f ∈ p.files) (hext : Path.extension? f = some "rs") {n : ModulePath}
    (hn : modulePath? f = some n) (hdir : n.crateDir = crateDir) :
    modulePathText n.segments ≠ modulePathText segments := by
  intro htext
  have hnone := List.find?_eq_none.1 h f (List.mem_reverse.2 hf)
  simp [hext, hn, hdir, htext] at hnone

/-- What is found has a part of the path that is long enough. -/
theorem exists_of_longestModule? (h : p.longestModule? crateDir segments least = some path) :
    ∃ kept, kept <+: segments ∧ max least 1 ≤ kept.length ∧
      p.moduleFile? crateDir kept = some path := by
  obtain ⟨n, hn, hfile⟩ := List.exists_of_findSome?_eq_some h
  obtain ⟨hleast, hlength⟩ := mem_lengths.1 hn
  exact ⟨segments.take n, List.take_prefix n segments, by simp; omega, hfile⟩

/-- If nothing is found, no part that is long enough has a file. -/
theorem moduleFile?_of_longestModule? (h : p.longestModule? crateDir segments least = none)
    {kept : List String} (hkept : kept <+: segments) (hleast : max least 1 ≤ kept.length) :
    p.moduleFile? crateDir kept = none := by
  have hn := mem_lengths.2 ⟨hleast, Nat.lt_succ_of_le hkept.length_le⟩
  have hnone := List.findSome?_eq_none_iff.1 h _ hn
  rwa [← List.prefix_iff_eq_take.1 hkept] at hnone

/-- A search over at most one place is a step of the optional place. -/
theorem findSome?_toList_map {α β γ : Type} (o : Option α) (place : α → β) (look : β → Option γ) :
    (o.toList.map place).findSome? look = o.bind fun a => look (place a) := by
  cases o <;> simp

/-- A crate path is looked up at its places, one after the other. -/
theorem resolveCrate_eq :
    p.resolveCrate origin fromFile =
      (modulePath? fromFile).bind fun m =>
        (modulePlaces origin (splitPath (modulePathText m.segments).toList)).findSome? fun place =>
          p.longestModule? m.crateDir place.1 place.2 := by
  unfold resolveCrate modulePlaces
  cases modulePath? fromFile with
  | none => rfl
  | some m =>
    simp only [Option.bind_eq_bind, Option.bind_some]
    generalize (splitPath origin.toList).filter (fun s => !s.isEmpty) = segments
    generalize splitPath (modulePathText m.segments).toList = current
    split
    · rfl
    · simp
    · simp
    · simp [findSome?_toList_map]
    · cases hroot : p.longestModule? m.crateDir ("crate" :: segments) 2 <;> simp [hroot]

theorem isMeant_of_resolveCrate (h : p.resolveCrate origin fromFile = some path) :
    path ∈ p.files ∧ p.IsMeant origin fromFile .rust path := by
  rw [resolveCrate_eq] at h
  obtain ⟨m, hm, h⟩ := Option.bind_eq_some_iff.1 h
  obtain ⟨place, hplace, h⟩ := List.exists_of_findSome?_eq_some h
  obtain ⟨kept, hkept, hleast, hfile⟩ := exists_of_longestModule? h
  obtain ⟨hmem, hext, n, hn, hdir, htext⟩ := exists_of_moduleFile? hfile
  exact ⟨hmem, m, n, hm, hext, hn, hdir, place, hplace, kept, hkept, hleast, htext⟩

theorem not_isMeant_of_resolveCrate (h : p.resolveCrate origin fromFile = none) {f : String}
    (hf : f ∈ p.files) : ¬ p.IsMeant origin fromFile .rust f := by
  rintro ⟨m, n, hm, hext, hn, hdir, place, hplace, kept, hkept, hleast, htext⟩
  rw [resolveCrate_eq, hm, Option.bind_some] at h
  have hnone := List.findSome?_eq_none_iff.1 h place hplace
  have hfile := moduleFile?_of_longestModule? hnone hkept hleast
  exact not_exists_of_moduleFile? hfile hf hext hn hdir htext

/-! ## Files that are found -/

/-- In every language what is found is a file that the import means. -/
theorem isMeant_of_find? {language : Language} (h : p.find? origin fromFile language = some path) :
    ∃ f ∈ p.files, p.IsMeant origin fromFile language f ∧ Path.parts path = Path.parts f := by
  cases language with
  | javascript | typescript | tsx =>
    rw [find?, resolveScript_eq] at h
    exact exists_of_find?_contains h
  | python =>
    rw [find?, resolveDotted_eq] at h
    exact exists_of_find?_contains h
  | java =>
    rw [find?] at h
    obtain ⟨hmem, hmeant⟩ := isMeant_of_resolveClass h
    exact ⟨path, hmem, hmeant, rfl⟩
  | rust =>
    rw [find?] at h
    obtain ⟨hmem, hmeant⟩ := isMeant_of_resolveCrate h
    exact ⟨path, hmem, hmeant, rfl⟩

/-- In every language, if nothing is found, the import means no file. -/
theorem not_isMeant_of_find? {language : Language} (h : p.find? origin fromFile language = none)
    {f : String} (hf : f ∈ p.files) : ¬ p.IsMeant origin fromFile language f := by
  cases language with
  | javascript | typescript | tsx =>
    rw [find?, resolveScript_eq] at h
    exact not_exists_of_find?_contains h hf
  | python =>
    rw [find?, resolveDotted_eq] at h
    exact not_exists_of_find?_contains h hf
  | java =>
    rw [find?] at h
    exact not_isMeant_of_resolveClass h hf
  | rust =>
    rw [find?] at h
    exact not_isMeant_of_resolveCrate h hf

/-- An origin leads to a file of the project that it may mean, in normal form, or it is external and
stays as it is, and then it may mean no file of the project. -/
theorem resolve_leads_to_file (root : String) (files : List String) (origin fromFile : String)
    (language : Language) :
    (((ofPaths root files).resolve origin fromFile language).isExternal = false ∧
      ∃ f ∈ files,
        (ofPaths root files).IsMeant origin fromFile language (Path.normalize f) ∧
        Path.parts ((ofPaths root files).resolve origin fromFile language).path =
          Path.parts (Path.normalize f) ∧
        Path.IsNormal
          (Path.parts ((ofPaths root files).resolve origin fromFile language).path)) ∨
    ((ofPaths root files).resolve origin fromFile language = ⟨origin, true⟩ ∧
      ∀ f ∈ files,
        ¬ (ofPaths root files).IsMeant origin fromFile language (Path.normalize f)) := by
  unfold resolve
  cases hfound : (ofPaths root files).find? origin fromFile language with
  | some path =>
    obtain ⟨_, hmem, hmeant, hparts⟩ := isMeant_of_find? hfound
    obtain ⟨f, hf, rfl⟩ := List.mem_map.1 hmem
    have hnormal : Path.IsNormal (Path.parts path) := by
      rw [hparts]
      exact Path.isNormal_parts_normalize f
    exact .inl ⟨rfl, f, hf, hmeant, hparts, hnormal⟩
  | none =>
    exact .inr ⟨rfl, fun f hf => not_isMeant_of_find? hfound (List.mem_map_of_mem hf)⟩

end CodeImpact.ProjectFiles

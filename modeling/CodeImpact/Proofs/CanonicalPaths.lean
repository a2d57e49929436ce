import CodeImpact.Proofs.NormalPaths

/-!
# Canonical spellings of paths

A path is normalized by a stack of parts. Pushing the parts of a normal form gives its stack back,
and pushing more parts onto it is the same as pushing them behind the original ones. So the normal
form is canonical: it is a fixed point, joins may be normalized early or late, and detours such as
`.` and `x/..` between two segments are not seen. A path under a directory, taken relative to it and
seen from it again, is spelled canonically.
-/

namespace CodeImpact.Path

/-! ## Stacks -/

/-- The parts of the normal form of a path, the last one first. -/
def stack (path : String) : List Part :=
  (parts path).foldl pushPart []

theorem normalize_eq (path : String) : normalize path = ofParts (stack path).reverse :=
  rfl

theorem foldl_pushPart_ups {ups : List Part} (h : ∀ p ∈ ups, p = .up) :
    ups.reverse.foldl pushPart [] = ups := by
  induction ups with
  | nil => rfl
  | cons p ups ih =>
    obtain ⟨rfl, hups⟩ := List.forall_mem_cons.1 h
    rw [List.reverse_cons, List.foldl_append, ih hups]
    cases ups with
    | nil => rfl
    | cons q ups =>
      obtain rfl : q = .up := hups q List.mem_cons_self
      rfl

theorem pushPart_name (done : List Part) (text : String) :
    pushPart done (.name text) = .name text :: done := by
  cases done with
  | nil => rfl
  | cons p done => cases p <;> rfl

/-- A normal form is built from its own parts without any of them being dropped. -/
theorem NormalStack.foldl_pushPart {done : List Part} (h : NormalStack done) :
    done.reverse.foldl pushPart [] = done := by
  induction h with
  | nil => rfl
  | root => rfl
  | up h => exact foldl_pushPart_ups (by simpa using h)
  | name h hdone ih =>
    rw [List.reverse_cons, List.foldl_append, ih]
    exact pushPart_name _ _

theorem stack_normalize (path : String) : stack (normalize path) = stack path := by
  rw [stack, parts_normalize]
  exact (normalStack_parts path).foldl_pushPart

theorem mem_root_pushPart {done : List Part} {part : Part} :
    .root ∈ pushPart done part ↔ .root ∈ done ∨ part = .root := by
  cases part with
  | name text => simp [pushPart_name]
  | here => simp [pushPart]
  | root => cases done with
    | nil => simp [pushPart]
    | cons p done => cases p <;> simp [pushPart]
  | up => cases done with
    | nil => simp [pushPart]
    | cons p done => cases p <;> simp [pushPart]

theorem mem_root_foldl {ps done : List Part} :
    .root ∈ ps.foldl pushPart done ↔ .root ∈ done ∨ .root ∈ ps := by
  induction ps generalizing done with
  | nil => simp
  | cons p ps ih => rw [List.foldl_cons, ih, mem_root_pushPart, List.mem_cons, or_assoc, eq_comm]

/-! ## The parts of segments -/

/-- What texts between slashes say, the first one apart. -/
def partsIn : List (List Char) → List Part
  | [] => []
  | s :: rest => (firstPart? rest.isEmpty s).toList ++ rest.filterMap partOf?

theorem parts_eq_partsIn (path : String) : parts path = partsIn (path.toList.splitOn '/') := by
  obtain ⟨s, rest, hsplit⟩ := List.exists_cons_of_ne_nil (List.splitOn_ne_nil '/' path.toList)
  rw [parts_eq hsplit, hsplit]
  rfl

variable {ss ts : List (List Char)}

/-- The parts of a path that is put together from texts without slashes. -/
theorem parts_intercalate (hne : ss ≠ []) (h : ∀ s ∈ ss, '/' ∉ s) :
    parts (String.ofList (['/'].intercalate ss)) = partsIn ss := by
  rw [parts_eq_partsIn, String.toList_ofList, List.splitOn_intercalate '/' h hne]

/-- An empty text is the root only if another one follows it. -/
theorem firstPart?_eq (alone : Bool) {s : List Char} (h : s ≠ [] ∨ alone = false) :
    firstPart? alone s = firstPart? false s := by
  unfold firstPart?
  by_cases hs : s = [] <;> simp_all

/-- Texts that follow other ones add what they say behind a slash. -/
theorem partsIn_append (hss : ss ≠ []) (h : ss ≠ [[]]) :
    partsIn (ss ++ ts) = partsIn ss ++ ts.filterMap partOf? := by
  cases ss with
  | nil => exact absurd rfl hss
  | cons s rest =>
    have hfirst : firstPart? (rest ++ ts).isEmpty s = firstPart? rest.isEmpty s := by
      cases rest with
      | cons t rest => rfl
      | nil =>
        have hs : s ≠ [] := fun hs => h (by rw [hs])
        rw [firstPart?_eq _ (.inl hs), firstPart?_eq [].isEmpty (.inl hs)]
    rw [List.cons_append, partsIn, hfirst, List.filterMap_append, partsIn, List.append_assoc]

/-- A last slash is the place where texts can be added. -/
theorem partsIn_append_of_slash (hss : ss ≠ []) (hts : ts ≠ [] ∨ ss ≠ [[]]) :
    partsIn (ss ++ ts) = partsIn (ss ++ [[]]) ++ ts.filterMap partOf? := by
  by_cases h : ss = [[]]
  · have hempty : ts.isEmpty = false := by simpa using hts.resolve_right (not_not.2 h)
    subst h
    simp [partsIn, hempty, firstPart?, partOf?]
  · rw [partsIn_append hss h, partsIn_append hss h]
    simp [partOf?]

theorem splitOn_ne_empty {a : List Char} (h : a ≠ []) : a.splitOn '/' ≠ [[]] := by
  intro hsplit
  have htext : ['/'].intercalate (a.splitOn '/') = a := List.intercalate_splitOn '/'
  rw [hsplit] at htext
  exact h htext.symm

/-- What a text says behind a slash. -/
def steps (text : List Char) : List Part :=
  (text.splitOn '/').filterMap partOf?

/-! ## Absolute paths -/

theorem partOf?_ne_root (s : List Char) : partOf? s ≠ some .root := by
  unfold partOf?
  split
  · simp
  · split <;> simp

/-- Only an empty text with a slash behind it stands for the root. -/
theorem firstPart?_eq_root_iff {alone : Bool} {s : List Char} :
    firstPart? alone s = some .root ↔ s = [] ∧ alone = false := by
  unfold firstPart?
  by_cases hs : s = [] ∧ alone = false
  · simp [hs]
  · rw [if_neg hs]
    by_cases hhere : s = ['.'] <;> simp [hs, hhere, partOf?_ne_root]

theorem isAbsolute_iff (path : String) : isAbsolute path = true ↔ .root ∈ parts path := by
  have hslash : ∀ s ∈ path.toList.splitOn '/', '/' ∉ s := fun _ => Text.not_mem_of_mem_splitOn
  have htext : ['/'].intercalate (path.toList.splitOn '/') = path.toList :=
    List.intercalate_splitOn '/'
  obtain ⟨s, rest, hsplit⟩ := List.exists_cons_of_ne_nil (List.splitOn_ne_nil '/' path.toList)
  rw [hsplit, List.forall_mem_cons] at hslash
  have hparts : .root ∈ parts path ↔ s = [] ∧ rest.isEmpty = false := by
    rw [parts_eq hsplit, List.mem_append, Option.mem_toList, firstPart?_eq_root_iff]
    simp [partOf?_ne_root]
  rw [hparts, isAbsolute, decide_eq_true_iff, ← htext, hsplit]
  -- The text starts with a slash just if the first of several segments is empty.
  cases rest with
  | nil =>
    rw [List.intercalate_singleton]
    simpa using fun hhead => hslash.1 (List.mem_of_head? hhead)
  | cons t rest =>
    rw [List.intercalate_cons_cons]
    cases s with
    | nil => simp
    | cons c s => simpa using fun hc => hslash.1 (by simp [hc])

/-- A relative path says behind a slash what it says on its own, but for a dot at its start. -/
theorem stack_of_relative {path : String} (h : isAbsolute path = false) :
    stack path = (steps path.toList).foldl pushPart [] := by
  obtain ⟨s, rest, hsplit⟩ := List.exists_cons_of_ne_nil (List.splitOn_ne_nil '/' path.toList)
  have hroot : ¬ (s = [] ∧ rest.isEmpty = false) := by
    intro hs
    have hmem : .root ∈ parts path := by simp [parts_eq hsplit, firstPart?, hs]
    rw [← isAbsolute_iff, h] at hmem
    cases hmem
  rw [stack, parts_eq hsplit, steps, hsplit, List.filterMap_cons, firstPart?, if_neg hroot]
  by_cases hhere : s = ['.']
  · subst hhere
    rfl
  · rw [if_neg hhere]
    cases partOf? s <;> rfl

theorem isAbsolute_normalize (path : String) : isAbsolute (normalize path) = isAbsolute path := by
  rw [Bool.eq_iff_iff, isAbsolute_iff, isAbsolute_iff, parts_normalize, normalParts,
    List.mem_reverse, mem_root_foldl]
  simp

/-! ## Joined paths -/

/-- A relative path behind another one is read as steps. -/
theorem parts_join {a b : String} (ha : a ≠ "") (h : isAbsolute b = false) :
    parts (join a b) = parts a ++ steps b.toList := by
  have hne : a.toList ≠ [] := by simpa using ha
  have hempty : a.isEmpty = false := by simpa using ha
  rw [join, h, if_neg Bool.false_ne_true, hempty, Bool.false_or]
  by_cases hlast : a.toList.getLast? = some '/'
  · obtain ⟨lead, hlead⟩ := List.getLast?_eq_some_iff.1 hlast
    have hboth : (a ++ b).toList = lead ++ '/' :: b.toList := by simp [hlead]
    rw [if_pos (by simpa using hlast), parts_eq_partsIn, parts_eq_partsIn, hboth, hlead,
      List.splitOn_append_cons_self, List.splitOn_append_cons_self, List.splitOn_nil]
    exact partsIn_append_of_slash (List.splitOn_ne_nil '/' lead) (.inl (List.splitOn_ne_nil '/' _))
  · have hboth : (a ++ "/" ++ b).toList = a.toList ++ '/' :: b.toList := by simp
    rw [if_neg (by simpa using hlast), parts_eq_partsIn, parts_eq_partsIn, hboth,
      List.splitOn_append_cons_self]
    exact partsIn_append (List.splitOn_ne_nil '/' _) (splitOn_ne_empty hne)

/-- A relative path goes on from the stack of the path before it. -/
theorem stack_join (a : String) {b : String} (h : isAbsolute b = false) :
    stack (join a b) = (steps b.toList).foldl pushPart (stack a) := by
  by_cases ha : a = ""
  · subst ha
    have hjoin : join "" b = b := by simp [join]
    rw [hjoin, stack_of_relative h]
    rfl
  · rw [stack, parts_join ha h, List.foldl_append]
    rfl

theorem join_of_absolute (a : String) {b : String} (h : isAbsolute b = true) : join a b = b := by
  rw [join, if_pos h]

/-- The first of two joined paths may be normalized before. -/
theorem normalize_join_normalize (a b : String) :
    normalize (join (normalize a) b) = normalize (join a b) := by
  cases h : isAbsolute b with
  | true => rw [join_of_absolute _ h, join_of_absolute _ h]
  | false => rw [normalize_eq, stack_join _ h, stack_normalize, ← stack_join _ h, ← normalize_eq]

/-! ## Detours -/

/-- Segments that lead nowhere. -/
inductive IsDetour : List (List Char) → Prop
  | stay : IsDetour [['.']]
  | back {x : List Char} (hx : IsName x) : IsDetour [x, ['.', '.']]

/-- Puts segments in front of the segment with this number, or at the end. -/
def insertSegments (path : String) (i : Nat) (extra : List (List Char)) : String :=
  let segs := path.toList.splitOn '/'
  String.ofList (['/'].intercalate (segs.take i ++ extra ++ segs.drop i))

theorem IsDetour.no_slash {extra : List (List Char)} (h : IsDetour extra) :
    extra ≠ [] ∧ ∀ s ∈ extra, '/' ∉ s := by
  cases h with
  | stay => simp
  | back hx => simpa using hx.no_slash

/-- A step to a name and back leaves every stack as it is. -/
theorem IsDetour.foldl_pushPart {extra : List (List Char)} (h : IsDetour extra)
    (done : List Part) : (extra.filterMap partOf?).foldl pushPart done = done := by
  cases h with
  | stay => rfl
  | @back x hx =>
    have hparts : [x, ['.', '.']].filterMap partOf? = [.name (String.ofList x), .up] := by
      rw [List.filterMap_cons, partOf?_of_isName hx]
      rfl
    rw [hparts, List.foldl_cons, pushPart_name]
    rfl

/-- At the start of a relative path a detour is the same as behind a slash. -/
theorem IsDetour.foldl_partsIn {extra ss : List (List Char)} (h : IsDetour extra) :
    (partsIn (extra ++ ss)).foldl pushPart [] = (ss.filterMap partOf?).foldl pushPart [] := by
  cases h with
  | stay => rfl
  | @back x hx =>
    have hfirst : ∀ alone, firstPart? alone x = some (.name (String.ofList x)) := by
      simp [firstPart?, hx.ne_nil, hx.ne_here, partOf?_of_isName hx]
    simp only [List.cons_append, partsIn, hfirst, List.nil_append]
    rfl

/-- A detour that is put into a path changes nothing, unless it comes before the root. -/
theorem stack_insertSegments {path : String} {i : Nat} {extra : List (List Char)}
    (h : IsDetour extra) (habsolute : isAbsolute path = true → 0 < i) (hempty : path = "" → i = 0) :
    stack (insertSegments path i extra) = stack path := by
  have hslash : ∀ s ∈ path.toList.splitOn '/', '/' ∉ s := fun _ => Text.not_mem_of_mem_splitOn
  have hne := List.splitOn_ne_nil '/' path.toList
  have hparts : parts (insertSegments path i extra) =
      partsIn ((path.toList.splitOn '/').take i ++ extra ++ (path.toList.splitOn '/').drop i) := by
    apply parts_intercalate
    · simp [h.no_slash.1]
    · rw [List.forall_mem_append, List.forall_mem_append]
      exact ⟨⟨fun s hs => hslash s (List.mem_of_mem_take hs), h.no_slash.2⟩,
        fun s hs => hslash s (List.mem_of_mem_drop hs)⟩
  rw [stack, hparts]
  cases i with
  | zero =>
    have hrelative : isAbsolute path = false := by
      rw [← Bool.not_eq_true]
      exact fun htrue => absurd (habsolute htrue) (Nat.lt_irrefl 0)
    rw [List.take_zero, List.drop_zero, List.nil_append, h.foldl_partsIn,
      stack_of_relative hrelative]
    rfl
  | succ i =>
    have hpath : path.toList ≠ [] := by simpa using fun heq => Nat.succ_ne_zero i (hempty heq)
    rw [stack, parts_eq_partsIn]
    have hsegs := List.take_append_drop (i + 1) (path.toList.splitOn '/')
    have hwhole := splitOn_ne_empty hpath
    generalize path.toList.splitOn '/' = segs at *
    have hlead : segs.take (i + 1) ≠ [] := by simpa using hne
    have hrest : segs.drop (i + 1) ≠ [] ∨ segs.take (i + 1) ≠ [[]] := by
      by_cases hdrop : segs.drop (i + 1) = []
      · rw [hdrop, List.append_nil] at hsegs
        exact .inr (hsegs.symm ▸ hwhole)
      · exact .inl hdrop
    nth_rewrite 3 [← hsegs]
    rw [List.append_assoc, partsIn_append_of_slash hlead (.inl (by simp [h.no_slash.1])),
      partsIn_append_of_slash hlead hrest, List.filterMap_append, List.foldl_append,
      List.foldl_append, h.foldl_pushPart, List.foldl_append]

/-! ## Relative paths -/

/-- Parts can be taken away iff the segments start with them. -/
theorem dropParts_eq_some_iff {lead : List Part} {segs : List Segment} :
    (∃ rest, dropParts lead segs = some rest) ↔ lead <+: segs.filterMap (·.2) := by
  fun_induction dropParts lead segs with
  | case1 segs => simp
  | case2 p ps => simp
  | case3 p ps s segs ih => rw [ih, List.filterMap_cons]
  | case4 ps s p segs ih => simpa [List.filterMap_cons] using ih
  | case5 p ps s q segs hne => simp [hne]

/-- What is taken away spells exactly the parts. -/
theorem exists_of_dropParts {lead : List Part} {segs rest : List Segment}
    (h : dropParts lead segs = some rest) :
    ∃ taken, segs = taken ++ rest ∧ taken.filterMap (·.2) = lead := by
  fun_induction dropParts lead segs with
  | case1 segs => exact ⟨[], by simpa using h, rfl⟩
  | case2 p ps => cases h
  | case3 p ps s segs ih =>
    obtain ⟨taken, rfl, htaken⟩ := ih h
    exact ⟨(s, none) :: taken, rfl, by simpa using htaken⟩
  | case4 ps s p segs ih =>
    obtain ⟨taken, rfl, htaken⟩ := ih h
    exact ⟨(s, some p) :: taken, rfl, by simpa using htaken⟩
  | case5 => cases h

/-- Texts without those at the end that say nothing. -/
def trimTexts (ts : List (List Char)) : List (List Char) :=
  (ts.reverse.dropWhile fun t => (partOf? t).isNone).reverse

theorem filterMap_dropWhile_isNone {α β : Type} (f : α → Option β) (l : List α) :
    (l.dropWhile fun a => (f a).isNone).filterMap f = l.filterMap f := by
  induction l with
  | nil => rfl
  | cons a l ih => cases h : f a <;> simp [h, ih]

theorem filterMap_trimTexts (ts : List (List Char)) :
    (trimTexts ts).filterMap partOf? = ts.filterMap partOf? := by
  rw [trimTexts, List.filterMap_reverse, filterMap_dropWhile_isNone, List.filterMap_reverse,
    List.reverse_reverse]

theorem prefix_trimTexts (ts : List (List Char)) : trimTexts ts <+: ts := by
  rw [← List.reverse_suffix, trimTexts, List.reverse_reverse]
  exact List.dropWhile_suffix _

theorem trimEnd_map (ts : List (List Char)) :
    trimEnd (ts.map fun t => (t, partOf? t)) = (trimTexts ts).map fun t => (t, partOf? t) := by
  rw [trimEnd, trimTexts, ← List.map_reverse, List.dropWhile_map, ← List.map_reverse]
  rfl

theorem trimEnd_cons {x : Segment} (h : x.2.isSome = true) (segs : List Segment) :
    trimEnd (x :: segs) = x :: trimEnd segs := by
  have hkeep : [x].dropWhile (fun s => s.2.isNone) = [x] := by
    simp [Option.isSome_iff_ne_none.1 h]
  rw [trimEnd, List.reverse_cons, List.dropWhile_append, hkeep]
  by_cases hall : (segs.reverse.dropWhile fun s => s.2.isNone).isEmpty = true
  · rw [if_pos hall, trimEnd, List.isEmpty_iff.1 hall]
    rfl
  · rw [if_neg hall, List.reverse_append]
    rfl

theorem ofSegments_eq {segs : List Segment} (h : ∀ s, segs ≠ [(s, some .root)]) :
    ofSegments segs = String.ofList (['/'].intercalate (segs.map (·.1))) := by
  unfold ofSegments
  split
  next s => exact absurd rfl (h s)
  next => rfl

theorem steps_intercalate (h : ∀ t ∈ ts, '/' ∉ t) :
    steps (['/'].intercalate ts) = ts.filterMap partOf? := by
  by_cases hne : ts = []
  · subst hne
    rfl
  · rw [steps, List.splitOn_intercalate '/' h hne]

/-- Texts of which the first one says something spell a relative path. -/
theorem isAbsolute_intercalate (h : ∀ t ∈ ts, '/' ∉ t)
    (hfirst : ∀ t ∈ ts.head?, (partOf? t).isSome = true) :
    isAbsolute (String.ofList (['/'].intercalate ts)) = false := by
  cases ts with
  | nil => rfl
  | cons t ts =>
    have hne : t ≠ [] := by
      rintro rfl
      exact absurd (hfirst [] rfl) (by decide)
    rw [← Bool.not_eq_true, isAbsolute_iff, parts_intercalate (List.cons_ne_nil t ts) h, partsIn,
      List.mem_append, Option.mem_toList, firstPart?_eq_root_iff]
    simp [hne, partOf?_ne_root]

theorem firstPart?_isSome {alone : Bool} {s : List Char} (h : s ≠ [] ∨ alone = false) :
    (firstPart? alone s).isSome = true := by
  unfold firstPart?
  by_cases hs : s = []
  · simp [hs, h.resolve_left (not_not.2 hs)]
  · by_cases hhere : s = ['.']
    · simp [hhere]
    · by_cases hup : s = ['.', '.'] <;> simp [hs, hhere, hup, partOf?]

/-- The first segment of a path that is not empty says something. -/
theorem exists_segments {path : String} (h : path ≠ "") :
    ∃ s rest, path.toList.splitOn '/' = s :: rest ∧ (s ≠ [] ∨ rest.isEmpty = false) := by
  obtain ⟨s, rest, hsplit⟩ := List.exists_cons_of_ne_nil (List.splitOn_ne_nil '/' path.toList)
  refine ⟨s, rest, hsplit, ?_⟩
  have hwhole : s :: rest ≠ [[]] := hsplit ▸ splitOn_ne_empty (by simpa using h)
  cases rest with
  | nil => exact .inl fun hs => hwhole (by rw [hs])
  | cons t rest => exact .inr rfl

theorem parts_eq_nil {path : String} (h : parts path = []) : path = "" := by
  by_contra hne
  obtain ⟨s, rest, hsplit, hs⟩ := exists_segments hne
  rw [parts_eq hsplit, List.append_eq_nil_iff, Option.toList_eq_nil_iff] at h
  have hsome := firstPart?_isSome hs
  rw [h.1] at hsome
  cases hsome

/-- Segments at the end that say nothing may be left out. -/
theorem parts_ofSegments_trimEnd (path : String) :
    parts (ofSegments (trimEnd (segments path))) = parts path := by
  by_cases hpath : path = ""
  · subst hpath
    rfl
  obtain ⟨s, rest, hsplit, hs⟩ := exists_segments hpath
  have hslash : ∀ t ∈ s :: rest, '/' ∉ t := fun t ht =>
    Text.not_mem_of_mem_splitOn (hsplit ▸ ht)
  rw [segments_eq hsplit, trimEnd_cons (firstPart?_isSome hs), trimEnd_map, parts_eq hsplit,
    ← filterMap_trimTexts rest]
  by_cases hroot : s = [] ∧ trimTexts rest = []
  · have hfirst : firstPart? rest.isEmpty s = some .root :=
      firstPart?_eq_root_iff.2 ⟨hroot.1, hs.resolve_left (not_not.2 hroot.1)⟩
    rw [hfirst, hroot.1, hroot.2]
    rfl
  · have htexts : s ≠ [] ∨ (trimTexts rest).isEmpty = false := by
      by_cases hempty : s = []
      · exact .inr (by simpa using fun h => hroot ⟨hempty, h⟩)
      · exact .inl hempty
    rw [ofSegments_eq, List.map_cons, List.map_map]
    · have hmap : (trimTexts rest).map ((fun x : Segment => x.1) ∘ fun t => (t, partOf? t)) =
          trimTexts rest := by simp [Function.comp_def]
      rw [hmap, parts_intercalate (List.cons_ne_nil _ _), partsIn, firstPart?_eq _ hs,
        firstPart?_eq _ htexts]
      exact fun t ht => hslash t (by
        rcases List.mem_cons.1 ht with rfl | ht
        · exact List.mem_cons_self
        · exact List.mem_cons_of_mem _ ((prefix_trimTexts rest).mem ht))
    · intro t heq
      obtain ⟨heq, hnil⟩ := List.cons.inj heq
      have hfirst := (Prod.mk.inj heq).2
      exact hroot ⟨(firstPart?_eq_root_iff.1 hfirst).1, List.map_eq_nil_iff.1 hnil⟩

/-- The path of segments is their texts with slashes between them. -/
theorem ofSegments_map (ts : List (List Char)) :
    ofSegments (ts.map fun t => (t, partOf? t)) = String.ofList (['/'].intercalate ts) := by
  rw [ofSegments_eq, List.map_map]
  · simp [Function.comp_def]
  · intro s heq
    have hmem : (s, some Part.root) ∈ ts.map fun t => (t, partOf? t) := by
      rw [heq]
      exact List.mem_cons_self
    obtain ⟨t, -, ht⟩ := List.mem_map.1 hmem
    exact partOf?_ne_root t (Prod.mk.inj ht).2

/-- Segments behind a slash, without those at the ends that say nothing, spell a relative path that
says the same. -/
theorem relative_of_segments {rest : String} (h : ∀ t ∈ ts, '/' ∉ t)
    (hrest : rest = ofSegments
      (trimEnd ((ts.map fun t => (t, partOf? t)).dropWhile fun s => s.2.isNone))) :
    isAbsolute rest = false ∧ steps rest.toList = ts.filterMap partOf? := by
  rw [List.dropWhile_map, trimEnd_map, ofSegments_map] at hrest
  have hkept := prefix_trimTexts
    (ts.dropWhile ((fun s : Segment => s.2.isNone) ∘ fun t => (t, partOf? t)))
  have hslash : ∀ t ∈ trimTexts (ts.dropWhile _), '/' ∉ t := fun t ht =>
    h t ((List.dropWhile_sublist _).mem (hkept.mem ht))
  subst hrest
  refine ⟨isAbsolute_intercalate hslash fun t ht => ?_, ?_⟩
  · obtain ⟨more, hmore⟩ := hkept
    have hsaid := List.head?_dropWhile_not (fun t => (partOf? t).isNone) ts
    rw [show (fun t => (partOf? t).isNone) = (fun s : Segment => s.2.isNone) ∘ fun t =>
      (t, partOf? t) from rfl, ← hmore, List.head?_append, Option.mem_def.1 ht] at hsaid
    simpa [Option.isSome_iff_ne_none] using hsaid
  · rw [String.toList_ofList, steps_intercalate hslash, filterMap_trimTexts]
    exact filterMap_dropWhile_isNone partOf? ts

/-- Behind a base that is not empty, the rest of a path is a relative path of its own. -/
theorem relativeTo?_of_ne_empty {path base rest : String} (hbase : base ≠ "")
    (h : relativeTo? path base = some rest) :
    isAbsolute rest = false ∧ parts path = parts base ++ steps rest.toList := by
  have hne : parts base ≠ [] := fun hnil => hbase (parts_eq_nil hnil)
  simp only [relativeTo?, Option.map_eq_some_iff] at h
  obtain ⟨segs, hdrop, hrest⟩ := h
  rw [if_neg (by simpa using hne)] at hrest
  obtain ⟨taken, htaken, hlead⟩ := exists_of_dropParts hdrop
  have hparts : parts path = parts base ++ segs.filterMap (·.2) := by
    rw [parts, htaken, List.filterMap_append, hlead]
  -- The base takes the first segment, so only segments behind a slash are left.
  obtain ⟨x, taken, rfl⟩ : ∃ x xs, taken = x :: xs :=
    List.exists_cons_of_ne_nil fun hnil => hne (by rw [← hlead, hnil]; rfl)
  obtain ⟨s, behind, hsplit⟩ := List.exists_cons_of_ne_nil (List.splitOn_ne_nil '/' path.toList)
  rw [segments_eq hsplit, List.cons_append] at htaken
  obtain ⟨before, ts, hbehind, -, rfl⟩ := List.map_eq_append_iff.1 (List.cons.inj htaken).2
  have hslash : ∀ t ∈ ts, '/' ∉ t := fun t ht =>
    Text.not_mem_of_mem_splitOn (s := path.toList) (by simp [hsplit, hbehind, ht])
  obtain ⟨hrelative, hsteps⟩ := relative_of_segments hslash hrest.symm
  refine ⟨hrelative, ?_⟩
  rw [hparts, hsteps, List.filterMap_map]
  rfl

/-- A path relative to a base, seen from the base again, has the parts that it had. -/
theorem parts_join_relativeTo? {path base rest : String} (h : relativeTo? path base = some rest) :
    parts (join base rest) = parts path := by
  by_cases hbase : base = ""
  · subst hbase
    have hnone : parts "" = [] := rfl
    have hrest : rest = ofSegments (trimEnd (segments path)) := by
      simpa [relativeTo?, dropParts, hnone] using h.symm
    have hjoin : join "" rest = rest := by
      unfold join
      split <;> simp
    rw [hjoin, hrest, parts_ofSegments_trimEnd]
  · obtain ⟨hrelative, hparts⟩ := relativeTo?_of_ne_empty hbase h
    rw [parts_join hbase hrelative, hparts]

/-- A path under the root has a rest, which leads from the root to the path again. -/
theorem exists_relativeToRoot {path root : String} (h : parts root <+: parts path) :
    ∃ rest, relativeToRoot path root = .ok rest ∧ absolutize rest root = normalize path := by
  obtain ⟨segs, hsegs⟩ := dropParts_eq_some_iff.2 h
  obtain ⟨rest, hrest⟩ : ∃ rest, relativeTo? path root = some rest := by
    rw [relativeTo?, hsegs]
    exact ⟨_, rfl⟩
  refine ⟨rest, by rw [relativeToRoot, hrest], ?_⟩
  rw [absolutize, normalize, parts_join_relativeTo? hrest]
  rfl

/-! ## The canonical spelling -/

/-- A canonical text: names behind the root, or behind steps up, with one slash between two of
them. The flag says whether it is absolute. -/
inductive Canonical : Bool → String → Prop
  | absolute (names : List String) (h : ∀ n ∈ names, IsName n.toList) :
    Canonical true ("/" ++ "/".intercalate names)
  | relative (ups : Nat) (names : List String) (h : ∀ n ∈ names, IsName n.toList) :
    Canonical false ("/".intercalate (List.replicate ups ".." ++ names))

theorem canonical_normalize (path : String) : Canonical (isAbsolute path) (normalize path) := by
  have hroot := isAbsolute_iff (normalize path)
  rw [isAbsolute_normalize] at hroot
  have htext : normalize path = ofParts (parts (normalize path)) := by
    rw [parts_normalize]
    rfl
  rw [htext]
  have hnormal := isNormal_parts_normalize path
  generalize parts (normalize path) = ps at hnormal hroot
  cases hnormal with
  | absolute names h =>
    rw [hroot.2 List.mem_cons_self]
    have hofParts : ofParts (.root :: names.map .name) = "/" ++ "/".intercalate names := by
      simp [ofParts, Function.comp_def, Part.text]
    exact hofParts ▸ .absolute names h
  | relative ups names h =>
    have hrelative : isAbsolute path = false := by
      rw [← Bool.not_eq_true, hroot]
      simp
    have hofParts : ofParts (List.replicate ups .up ++ names.map .name) =
        "/".intercalate (List.replicate ups ".." ++ names) := by
      cases ups <;> cases names <;>
        simp [ofParts, Function.comp_def, Part.text, List.replicate_succ]
    rw [hrelative]
    exact hofParts ▸ .relative ups names h

/-- The normal form of a path is its canonical spelling. It has no dot, steps up only at the start
of a relative path, and is absolute if and only if the path is. Normalizing it again changes
nothing, joins may be normalized early or late, and detours behind the root and between segments
are not seen. A path under a root, taken relative to it and made absolute again, is normalized. -/
theorem normalize_is_canonical (path : String) :
    Canonical (isAbsolute path) (normalize path) ∧
    isAbsolute (normalize path) = isAbsolute path ∧
    normalize (normalize path) = normalize path ∧
    (∀ other, normalize (join (normalize path) other) = normalize (join path other)) ∧
    (∀ i extra, IsDetour extra → (isAbsolute path = true → 0 < i) → (path = "" → i = 0) →
      normalize (insertSegments path i extra) = normalize path) ∧
    ∀ root, parts root <+: parts path →
      ∃ rest, relativeToRoot path root = .ok rest ∧ absolutize rest root = normalize path := by
  refine ⟨canonical_normalize path, isAbsolute_normalize path, ?_, normalize_join_normalize path,
    ?_, fun root => exists_relativeToRoot⟩
  · rw [normalize_eq, stack_normalize, ← normalize_eq]
  · intro i extra hextra habsolute hempty
    rw [normalize_eq, stack_insertSegments hextra habsolute hempty, ← normalize_eq]

/-- A file below a root: it is spelled with dots, with a detour in front of its name, and from the
root. -/
theorem sourceFile_canonical :
    normalize "/r/src/a.rs" = "/r/src/a.rs" ∧
    normalize (join (normalize "/r/./lib//../src") "../src/a.rs") = "/r/src/a.rs" ∧
    normalize (insertSegments "/r/src/a.rs" 3 ["lib".toList, "..".toList]) = "/r/src/a.rs" ∧
    parts "/r" <+: parts "/r/src/a.rs" ∧
    ∃ rest, relativeToRoot "/r/src/a.rs" "/r" = .ok rest ∧
      absolutize rest "/r" = "/r/src/a.rs" := by
  have hnormal : normalize "/r/src/a.rs" = "/r/src/a.rs" := by decide +kernel
  have hunder : parts "/r" <+: parts "/r/src/a.rs" := by decide +kernel
  have hdetour : IsDetour ["lib".toList, "..".toList] := .back (by constructor <;> decide)
  obtain ⟨-, -, -, hjoin, -, -⟩ := normalize_is_canonical "/r/./lib//../src"
  obtain ⟨-, -, -, -, hinsert, hrelative⟩ := normalize_is_canonical "/r/src/a.rs"
  have hplace := hinsert 3 _ hdetour (by decide) (by decide)
  obtain ⟨rest, hrest, hback⟩ := hrelative "/r" hunder
  exact ⟨hnormal, (hjoin _).trans (by decide +kernel), hplace.trans hnormal, hunder, rest, hrest,
    hback.trans hnormal⟩

end CodeImpact.Path

import CodeImpact.Grammar.TypeName
import CodeImpact.Proofs.Trimming

/-!
# Marks in front of type names

Marks are taken away in rounds, each one at most once in a round, until a round leaves the text as
it is. Where several stand in front of a name, in any order and number, all of them go and the name
is left, but for a qualifier that is a mark itself.
-/

namespace CodeImpact.TypeName

open Text

/-! ## Qualified names and marks -/

/-- A piece of a qualified name. -/
structure Segment where
  chars : List Char
  ne_nil : chars ≠ []
  isName : ∀ c ∈ chars, isNameChar c = true

/-- What stands between two segments. -/
inductive Joint
  | colons
  | dot
  deriving DecidableEq

def Joint.chars : Joint → List Char
  | colons => [':', ':']
  | dot => ['.']

/-- Segments with joints between them. -/
structure QualifiedName where
  /-- The segments before the last one, each with the joint behind it. -/
  qualifiers : List (Segment × Joint)
  last : Segment

def QualifiedName.chars (q : QualifiedName) : List Char :=
  q.qualifiers.flatMap (fun s => s.1.chars ++ s.2.chars) ++ q.last.chars

/-- A mark in front of a type. -/
inductive Mark
  | ref
  | refMut
  | refFor (lifetime : Segment)
  | dyn
  | impl

def Mark.chars : Mark → List Char
  | ref => ['&']
  | refMut => ['&', 'm', 'u', 't', ' ']
  | refFor lifetime => '&' :: '\'' :: (lifetime.chars ++ [' '])
  | dyn => ['d', 'y', 'n', ' ']
  | impl => ['i', 'm', 'p', 'l', ' ']

/-! ## Characters -/

/-- Code points with no letter, number or low line among them. -/
def signRanges : List (Nat × Nat) :=
  [(0, 0x2F), (0x3A, 0x40), (0x5B, 0x5E), (0x7B, 0xA9), (0x1680, 0x1680), (0x2000, 0x206F),
   (0x3000, 0x3000)]

theorem isNameChar_of_inRanges {c : Char} (h : inRanges signRanges c.toNat = true) :
    isNameChar c = false := by
  have hapart : ∀ r ∈ alphanumericRanges, ∀ g ∈ signRanges, r.2 < g.1 ∨ g.2 < r.1 := by
    decide +kernel
  obtain ⟨g, hg, hin⟩ := List.any_eq_true.1 h
  have hnone : isAlphanumeric c = false := by
    refine Bool.eq_false_iff.2 fun hletter => ?_
    obtain ⟨r, hr, hbetween⟩ := List.any_eq_true.1 hletter
    simp only [Bool.and_eq_true, decide_eq_true_eq] at hin hbetween
    have := hapart r hr g hg
    omega
  have hne : c ≠ '_' := by
    rintro rfl
    exact absurd h (by decide)
  simp [isNameChar, hnone, hne]

theorem isBlank_of_isNameChar {c : Char} (h : isNameChar c = true) : isBlank c = false := by
  refine Bool.eq_false_iff.2 fun hblank => ?_
  have hin : inRanges signRanges c.toNat = true := by
    simp [isBlank] at hblank
    simp [inRanges, signRanges]
    omega
  simp [isNameChar_of_inRanges hin] at h

/-- The characters that structure a type expression, or that are special in other types. -/
def signs : List Char :=
  "&'<>[],|?:.- ".toList

theorem isNameChar_of_mem_signs {c : Char} (h : c ∈ signs) : isNameChar c = false := by
  have hin : ∀ c ∈ signs, inRanges signRanges c.toNat = true :=
    forall_mem_of_all (by decide)
  exact isNameChar_of_inRanges (hin c h)

theorem ne_of_isNameChar {c d : Char} (hc : isNameChar c = true) (hd : d ∈ signs) : c ≠ d := by
  rintro rfl
  simp [isNameChar_of_mem_signs hd] at hc

/-- Two texts of name characters that another character ends are told apart by what is before it. -/
theorem eq_of_append_eq {w s : List Char} (hw : ∀ c ∈ w, isNameChar c = true)
    (hs : ∀ c ∈ s, isNameChar c = true) {c : Char} (hc : isNameChar c = false) {r u : List Char}
    (hu : ∀ d ∈ u.head?, isNameChar d = false) (h : s ++ u = w ++ c :: r) : s = w ∧ u = c :: r := by
  have hleft : (s ++ u).takeWhile isNameChar = s := by
    rw [List.takeWhile_append_of_pos hs]
    cases u with
    | nil => simp
    | cons d u => simp [hu d rfl]
  have hright : (w ++ c :: r).takeWhile isNameChar = w := by
    rw [List.takeWhile_append_of_pos hw]
    simp [hc]
  have hsw : s = w := by rw [← hleft, h, hright]
  subst hsw
  exact ⟨rfl, List.append_cancel_left h⟩

/-! ## Marks -/

/-- A text with marks and lifetimes in front of it. -/
inductive Marked (x : List Char) : List Char → Prop
  | bare : Marked x x
  | mark {m t : List Char} (hm : m ∈ marks) (h : Marked x t) : Marked x (m ++ t)
  | lifetime {name t : List Char} (hname : ' ' ∉ name) (h : Marked x t) :
    Marked x ('\'' :: (name ++ ' ' :: t))

/-- A text that no mark, lifetime or blank starts. -/
structure Bare (x : List Char) : Prop where
  no_mark : ∀ m ∈ marks, ¬ m <+: x
  no_lifetime : x.head? ≠ some '\''
  no_blank : ∀ c ∈ x.head?, isBlank c = false

theorem marks_ne_nil : ∀ m ∈ marks, m ≠ [] := by
  decide

/-- Only two marks start alike. -/
theorem marks_eq_of_head? : ∀ m ∈ marks, ∀ n ∈ marks, m.head? = n.head? →
    m = n ∨ (m = "&".toList ∧ n = "&mut ".toList) ∨ (m = "&mut ".toList ∧ n = "&".toList) := by
  decide

theorem head?_of_mem_marks : ∀ m ∈ marks, ∀ c ∈ m.head?, isBlank c = false ∧ c ≠ '\'' := by
  have hall : ∀ m ∈ marks, m.head?.all (fun c => isBlank c = false ∧ c ≠ '\'') = true := by decide
  intro m hm c hc
  have hmark := hall m hm
  rw [Option.mem_def.1 hc] at hmark
  simpa using hmark

section Loop

variable {x t : List Char}

theorem Marked.no_blank (hx : Bare x) (h : Marked x t) : ∀ c ∈ t.head?, isBlank c = false := by
  cases h with
  | bare => exact hx.no_blank
  | @mark m t hm h =>
    obtain ⟨c, m, rfl⟩ := List.exists_cons_of_ne_nil (marks_ne_nil m hm)
    simpa using (head?_of_mem_marks _ hm c rfl).1
  | lifetime hname h => simp [isBlank]

/-- What follows a mark is marked. -/
theorem Marked.after (hx : Bare x) (h : Marked x t) {m rest : List Char} (hm : m ∈ marks)
    (ht : t = m ++ rest) : Marked x rest := by
  induction h generalizing m rest with
  | bare => exact absurd ⟨rest, ht.symm⟩ (hx.no_mark m hm)
  | @mark n t hn h ih =>
    have hhead : m.head? = n.head? := by
      have := congrArg List.head? ht
      obtain ⟨c, m, rfl⟩ := List.exists_cons_of_ne_nil (marks_ne_nil m hm)
      obtain ⟨d, n, rfl⟩ := List.exists_cons_of_ne_nil (marks_ne_nil n hn)
      simpa using this.symm
    obtain rfl | ⟨rfl, rfl⟩ | ⟨rfl, rfl⟩ := marks_eq_of_head? m hm n hn hhead
    · rw [← List.append_cancel_left ht]
      exact h
    · -- the sign of `&mut ` alone is taken, and `mut ` is a mark too
      have hrest : rest = "mut ".toList ++ t := by simpa using ht.symm
      rw [hrest]
      exact .mark (by decide) h
    · have hrest : t = "mut ".toList ++ rest := by simpa using ht
      exact ih (by decide) hrest
  | lifetime hname h ih =>
    obtain ⟨c, m, rfl⟩ := List.exists_cons_of_ne_nil (marks_ne_nil m hm)
    obtain ⟨rfl, -⟩ : '\'' = c ∧ _ := by simpa using ht
    exact absurd rfl (head?_of_mem_marks _ hm '\'' rfl).2

theorem Marked.dropMark (hx : Bare x) (h : Marked x t) {m : List Char} (hm : m ∈ marks) :
    Marked x (dropMark t m) := by
  unfold TypeName.dropMark
  cases hlead : afterLead? m t with
  | none => exact h
  | some rest =>
    have hrest : Marked x rest := h.after hx hm (afterLead?_eq_some hlead)
    simpa [trimLeft_of_head (hrest.no_blank hx)] using hrest

theorem Marked.foldl_dropMark (hx : Bare x) (h : Marked x t) {ms : List (List Char)}
    (hms : ms ⊆ marks) : Marked x (ms.foldl TypeName.dropMark t) := by
  induction ms generalizing t with
  | nil => exact h
  | cons m ms ih =>
    obtain ⟨hm, hms⟩ := List.cons_subset.1 hms
    exact ih (h.dropMark hx hm) hms

theorem dropLifetime_cons {name : List Char} (h : ' ' ∉ name) (t : List Char) :
    dropLifetime ('\'' :: (name ++ ' ' :: t)) = t := by
  have hname : ' ' ∉ '\'' :: name := by simpa using h
  have hcut : cut? [' '] ('\'' :: (name ++ ' ' :: t)) = some ('\'' :: name, t) :=
    cut?_append hname [] t
  simp [dropLifetime, hcut]

theorem dropLifetime_of_head? (h : t.head? ≠ some '\'') : dropLifetime t = t :=
  if_neg h

theorem Marked.dropLifetime (hx : Bare x) (h : Marked x t) : Marked x (dropLifetime t) := by
  cases h with
  | bare =>
    rw [dropLifetime_of_head? hx.no_lifetime]
    exact .bare
  | @mark m t hm h =>
    have hhead : (m ++ t).head? ≠ some '\'' := by
      obtain ⟨c, m, rfl⟩ := List.exists_cons_of_ne_nil (marks_ne_nil m hm)
      simpa using (head?_of_mem_marks _ hm c rfl).2
    rw [dropLifetime_of_head? hhead]
    exact .mark hm h
  | lifetime hname h =>
    rw [dropLifetime_cons hname]
    exact h

theorem Marked.dropMarksOnce (hx : Bare x) (h : Marked x t) : Marked x (dropMarksOnce t) :=
  (h.foldl_dropMark hx (List.Subset.refl _)).dropLifetime hx

/-- Taking marks away leaves a text alone only if it starts with none of them. -/
theorem foldl_dropMark_cases {ms : List (List Char)} (hms : ∀ m ∈ ms, m ≠ []) (t : List Char) :
    (ms.foldl dropMark t = t ∧ ∀ m ∈ ms, ¬ m <+: t) ∨
      (ms.foldl dropMark t).length < t.length := by
  induction ms generalizing t with
  | nil => simp
  | cons m ms ih =>
    obtain ⟨hm, hms⟩ := List.forall_mem_cons.1 hms
    rw [List.foldl_cons]
    cases hlead : afterLead? m t with
    | none =>
      have hsame : dropMark t m = t := by simp [dropMark, hlead]
      rw [hsame]
      refine (ih hms t).imp_left fun h => ⟨h.1, ?_⟩
      exact List.forall_mem_cons.2 ⟨afterLead?_eq_none_iff.1 hlead, h.2⟩
    | some rest =>
      have hshorter : (dropMark t m).length < t.length := by
        have hpos := List.length_pos_iff.2 hm
        have htrim := length_trimLeft_le rest
        have ht := congrArg List.length (afterLead?_eq_some hlead)
        rw [List.length_append] at ht
        simp only [dropMark, hlead, Option.map_some, Option.getD_some]
        omega
      obtain ⟨hsame, -⟩ | hless := ih hms (dropMark t m)
      · exact .inr (by rw [hsame]; exact hshorter)
      · exact .inr (by omega)

theorem length_dropLifetime_le (t : List Char) : (dropLifetime t).length ≤ t.length := by
  unfold dropLifetime
  split
  · cases hcut : cut? [' '] t with
    | none => simp
    | some pieces =>
      have := length_cut? hcut
      simp
      omega
  · exact Nat.le_refl _

/-- As long as a mark is left, another round makes the text shorter. -/
theorem Marked.eq_or_shorter (h : Marked x t) :
    t = x ∨ (TypeName.dropMarksOnce t).length < t.length := by
  have hlifetime := length_dropLifetime_le (marks.foldl TypeName.dropMark t)
  unfold TypeName.dropMarksOnce
  obtain ⟨hsame, hnone⟩ | hless := foldl_dropMark_cases marks_ne_nil t
  · rw [hsame]
    cases h with
    | bare => exact .inl rfl
    | mark hm h => exact absurd (List.prefix_append _ _) (hnone _ hm)
    | lifetime hname h =>
      right
      rw [dropLifetime_cons hname]
      simp
      omega
  · exact .inr (by omega)

theorem Marked.dropMarks (hx : Bare x) (h : Marked x t) : dropMarks t = x := by
  fun_induction TypeName.dropMarks t with
  | case1 t hless ih => exact ih (h.dropMarksOnce hx)
  | case2 t hless => exact h.eq_or_shorter.resolve_right hless

end Loop

/-! ## Names behind marks -/

namespace QualifiedName

/-- A text that is empty or starts with an opening bracket. -/
def Opens (r : List Char) : Prop :=
  ∀ c ∈ r.head?, c = '<' ∨ c = '['

theorem chars_cons (s : Segment) (j : Joint) (qualifiers : List (Segment × Joint))
    (last : Segment) :
    chars ⟨(s, j) :: qualifiers, last⟩ = s.chars ++ (j.chars ++ chars ⟨qualifiers, last⟩) := by
  simp [chars]

/-- A qualified name has no signs but those between its segments. -/
theorem mem_chars {q : QualifiedName} {c : Char} (h : c ∈ q.chars) :
    isNameChar c = true ∨ c = ':' ∨ c = '.' := by
  rw [chars, List.mem_append, List.mem_flatMap] at h
  obtain ⟨⟨s, j⟩, -, h⟩ | h := h
  · rcases List.mem_append.1 h with h | h
    · exact .inl (s.isName c h)
    · right
      cases j <;> simp [Joint.chars] at h <;> simp [h]
  · exact .inl (q.last.isName c h)

end QualifiedName

/-- Each mark has name characters up to a sign. -/
theorem exists_sign_of_mem_marks {m : List Char} (hm : m ∈ marks) :
    ∃ w c r, m = w ++ c :: r ∧ (∀ d ∈ w, isNameChar d = true) ∧ c ∈ signs ∧
      (w = [] ∨ c = ' ' ∨ (w = "typing".toList ∧ c = '.')) := by
  simp only [marks, List.map_cons, List.map_nil, List.mem_cons, List.not_mem_nil, or_false] at hm
  obtain rfl | rfl | rfl | rfl | rfl | rfl | rfl := hm
  · exact ⟨[], '&', "mut ".toList, rfl, by simp, by decide, .inl rfl⟩
  · exact ⟨[], '&', [], rfl, by simp, by decide, .inl rfl⟩
  · refine ⟨"mut".toList, ' ', [], rfl, ?_, by decide, .inr (.inl rfl)⟩
    exact forall_mem_of_all (by decide +kernel)
  · refine ⟨"dyn".toList, ' ', [], rfl, ?_, by decide, .inr (.inl rfl)⟩
    exact forall_mem_of_all (by decide +kernel)
  · refine ⟨"impl".toList, ' ', [], rfl, ?_, by decide, .inr (.inl rfl)⟩
    exact forall_mem_of_all (by decide +kernel)
  · refine ⟨"readonly".toList, ' ', [], rfl, ?_, by decide, .inr (.inl rfl)⟩
    exact forall_mem_of_all (by decide +kernel)
  · refine ⟨"typing".toList, '.', [], rfl, ?_, by decide, .inr (.inr ⟨rfl, rfl⟩)⟩
    exact forall_mem_of_all (by decide +kernel)

/-- A segment starts with no mark, unless it is the one that is always taken away. -/
theorem Segment.bare (s : Segment) {u : List Char} (hu : ∀ c ∈ u.head?, c ∈ [':', '.', '<', '['])
    (htyping : s.chars = "typing".toList → u.head? ≠ some '.') : Bare (s.chars ++ u) := by
  obtain ⟨first, rest, hs⟩ := List.exists_cons_of_ne_nil s.ne_nil
  have hfirst : isNameChar first = true := s.isName first (by simp [hs])
  have hsign : ∀ c ∈ u.head?, isNameChar c = false := by
    intro c hc
    apply isNameChar_of_mem_signs
    have hmem := hu c hc
    simp only [List.mem_cons, List.not_mem_nil, or_false] at hmem
    obtain rfl | rfl | rfl | rfl := hmem <;> decide
  refine ⟨?_, ?_, ?_⟩
  · rintro m hm ⟨e, he⟩
    obtain ⟨w, c, r, rfl, hw, hc, hcases⟩ := exists_sign_of_mem_marks hm
    obtain ⟨hsw, rfl⟩ := eq_of_append_eq hw s.isName (isNameChar_of_mem_signs hc) hsign
      (by simpa using he.symm)
    obtain rfl | rfl | ⟨rfl, rfl⟩ := hcases
    · exact s.ne_nil hsw
    · exact absurd (hu ' ' rfl) (by decide)
    · exact htyping hsw rfl
  · rw [hs]
    simpa using ne_of_isNameChar hfirst (by decide)
  · rw [hs]
    simpa using isBlank_of_isNameChar hfirst

namespace QualifiedName

/-- A name in front of its arguments, if it has any, is marked by at most some segments in front of
its last one. -/
theorem exists_bare (q : QualifiedName) {r : List Char} (hr : Opens r) :
    ∃ p : QualifiedName, p.last = q.last ∧ Bare (p.chars ++ r) ∧
      Marked (p.chars ++ r) (q.chars ++ r) := by
  obtain ⟨qualifiers, last⟩ := q
  induction qualifiers with
  | nil =>
    refine ⟨⟨[], last⟩, rfl, ?_, .bare⟩
    have hbracket : ∀ c ∈ r.head?, c ∈ [':', '.', '<', '['] := by
      intro c hc
      obtain rfl | rfl := hr c hc <;> decide
    refine last.bare hbracket fun _ hdot => ?_
    exact absurd (hr '.' hdot) (by decide)
  | cons first qualifiers ih =>
    obtain ⟨s, j⟩ := first
    rw [chars_cons]
    by_cases htyping : s.chars = "typing".toList ∧ j = .dot
    · obtain ⟨hs, rfl⟩ := htyping
      obtain ⟨p, hp, hbare, hmarked⟩ := ih
      refine ⟨p, hp, hbare, ?_⟩
      have hchars : s.chars ++ (Joint.dot.chars ++ chars ⟨qualifiers, last⟩) ++ r =
          "typing.".toList ++ (chars ⟨qualifiers, last⟩ ++ r) := by
        rw [hs, ← List.append_assoc, List.append_assoc]
        rfl
      rw [hchars]
      exact .mark (by decide) hmarked
    · refine ⟨⟨(s, j) :: qualifiers, last⟩, rfl, ?_, by rw [chars_cons]; exact .bare⟩
      rw [chars_cons, List.append_assoc]
      apply s.bare
      · cases j <;> simp [Joint.chars]
      · intro hs
        cases j with
        | colons => simp [Joint.chars]
        | dot => exact absurd ⟨hs, rfl⟩ htyping

end QualifiedName

/-- Marks in front of a marked text mark it further. -/
theorem Marked.append_chars {x t : List Char} (h : Marked x t) (ms : List Mark) :
    Marked x (ms.flatMap Mark.chars ++ t) := by
  induction ms with
  | nil => exact h
  | cons m ms ih =>
    rw [List.flatMap_cons, List.append_assoc]
    cases m with
    | ref => exact .mark (m := "&".toList) (by decide) ih
    | refMut => exact .mark (by decide) ih
    | dyn => exact .mark (by decide) ih
    | impl => exact .mark (by decide) ih
    | refFor lifetime =>
      have hspace : ' ' ∉ lifetime.chars := fun hmem =>
        ne_of_isNameChar (lifetime.isName ' ' hmem) (by decide) rfl
      have hchars : (Mark.refFor lifetime).chars ++ (ms.flatMap Mark.chars ++ t) =
          ['&'] ++ '\'' :: (lifetime.chars ++ ' ' :: (ms.flatMap Mark.chars ++ t)) := by
        rw [Mark.chars, List.cons_append, List.cons_append, List.append_assoc]
        rfl
      rw [hchars]
      exact .mark (by decide) (.lifetime hspace ih)

end CodeImpact.TypeName

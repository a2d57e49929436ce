import CodeImpact.Proofs.TypeMarks

/-!
# Simple names of type expressions

A type expression applies qualified names to arguments and may carry marks. Its simple name is read
off the text alone: the text is cut at the first bracket, all closing brackets at the end go, and
the first comma ends the first argument, even one that stands inside it. Whatever is lost so stands
behind the chain of first arguments, which is all that the name depends on.
-/

namespace CodeImpact.TypeName

open Text

/-! ## Type expressions -/

inductive TypeExpr
  | name (q : QualifiedName)
  | app (q : QualifiedName) (first : TypeExpr) (others : List TypeExpr)
  | marked (m : Mark) (t : TypeExpr)

/-- The brackets around arguments. -/
inductive Brackets
  | angle
  | square

namespace Brackets

def opening : Brackets → Char
  | angle => '<'
  | square => '['

def closing : Brackets → Char
  | angle => '>'
  | square => ']'

end Brackets

/-- How arguments are written. -/
structure Style where
  brackets : Brackets
  /-- The blanks behind a comma. -/
  gap : List Char
  gap_blank : ∀ c ∈ gap, isBlank c = true

namespace TypeExpr

mutual

/-- The text of a type expression. -/
def chars (style : Style) : TypeExpr → List Char
  | name q => q.chars
  | app q first others =>
    q.chars ++ style.brackets.opening ::
      (first.chars style ++ (othersChars style others ++ [style.brackets.closing]))
  | marked m t => m.chars ++ t.chars style

/-- The text of the arguments behind the first one. -/
def othersChars (style : Style) : List TypeExpr → List Char
  | [] => []
  | t :: rest => ',' :: (style.gap ++ (t.chars style ++ othersChars style rest))

end

/-- The name that is reached when each applied wrapper gives way to its first argument. -/
def target : TypeExpr → QualifiedName
  | name q => q
  | app q first _ =>
    if wrappers.contains (String.ofList q.last.chars) then first.target else q
  | marked _ t => t.target

end TypeExpr

/-! ## The chain of first arguments -/

/-- A character that does not mislead the reader where these brackets are used: no alternative, and
no bracket of the kind that is looked for first. -/
def Brackets.Allows : Brackets → Char → Prop
  | angle, c => c ≠ '|'
  | square, c => c ≠ '|' ∧ c ≠ '<'

namespace Brackets

theorem allows_closing (b : Brackets) : b.Allows b.closing := by
  cases b <;> simp [Allows, closing]

theorem allows_opening (b : Brackets) : b.Allows b.opening := by
  cases b <;> simp [Allows, opening]

theorem allows_of_isNameChar (b : Brackets) {c : Char} (h : isNameChar c = true) :
    b.Allows c := by
  have hbar : c ≠ '|' := ne_of_isNameChar h (by decide)
  have hangle : c ≠ '<' := ne_of_isNameChar h (by decide)
  cases b <;> simp [Allows, hbar, hangle]

/-- The other characters of type expressions. -/
theorem allows_of_mem (b : Brackets) : ∀ c ∈ [',', ':', '.', '&', '\'', ' '], b.Allows c := by
  cases b <;> simp [Allows]

end Brackets

namespace TypeExpr

/-- The text of a type expression up to where its chain of first arguments ends. -/
def spine (b : Brackets) : TypeExpr → List Char
  | name q => q.chars
  | app q first _ => q.chars ++ b.opening :: first.spine b
  | marked m t => m.chars ++ t.spine b

/-- How many brackets its chain of first arguments opens. -/
def depth : TypeExpr → Nat
  | name _ => 0
  | app _ first _ => first.depth + 1
  | marked _ t => t.depth

end TypeExpr

/-- What may follow a chain of first arguments with `depth` open brackets: brackets that close some
of them, and before the last one is closed a comma and whatever else. -/
inductive Follows (b : Brackets) (depth : Nat) : List Char → Prop
  | closed {n : Nat} (hn : n ≤ depth) : Follows b depth (List.replicate n b.closing)
  | more {n : Nat} (hn : n < depth) {others : List Char} (hothers : ∀ c ∈ others, b.Allows c) :
    Follows b depth (List.replicate n b.closing ++ ',' :: others)

namespace Follows

variable {b : Brackets} {depth : Nat} {r s : List Char}

theorem eq_nil (h : Follows b 0 r) : r = [] := by
  cases h with
  | closed hn => simp [Nat.le_zero.1 hn]
  | more hn => exact absurd hn (Nat.not_lt_zero _)

theorem of_prefix_replicate {n : Nat} (hn : n ≤ depth) (h : s <+: List.replicate n b.closing) :
    Follows b depth s := by
  obtain ⟨hlength, hs⟩ := List.prefix_replicate_iff.1 h
  rw [hs]
  exact .closed (Nat.le_trans hlength hn)

/-- Nothing that is cut off at the end matters. -/
theorem mono (h : Follows b depth r) (hs : s <+: r) : Follows b depth s := by
  cases h with
  | closed hn => exact of_prefix_replicate hn hs
  | @more n hn others hothers =>
    obtain ⟨e, he⟩ := hs
    obtain ⟨w, hw, -⟩ | ⟨w, rfl, hw⟩ := List.append_eq_append_iff.1 he
    · exact of_prefix_replicate (Nat.le_of_lt hn) ⟨w, hw.symm⟩
    · cases w with
      | nil => simpa using Follows.closed (b := b) (Nat.le_of_lt hn)
      | cons c w =>
        obtain ⟨rfl, rfl⟩ : ',' = c ∧ others = w ++ e := by simpa using hw
        exact .more hn fun c hc => hothers c (List.mem_append_left e hc)

theorem allows (h : Follows b depth r) : ∀ c ∈ r, b.Allows c := by
  have hclosing : ∀ n, ∀ c ∈ List.replicate n b.closing, b.Allows c := by
    intro n c hc
    rw [List.eq_of_mem_replicate hc]
    exact b.allows_closing
  cases h with
  | closed hn => exact hclosing _
  | more hn hothers =>
    rw [List.forall_mem_append, List.forall_mem_cons]
    exact ⟨hclosing _, b.allows_of_mem ',' (by decide), hothers⟩

/-- The closing bracket, or other arguments, may follow a first argument. -/
theorem argument (h : Follows b depth r) {others : List Char} (hothers : ∀ c ∈ others, b.Allows c) :
    Follows b (depth + 1) (r ++ [b.closing]) ∧ Follows b (depth + 1) (r ++ ',' :: others) := by
  cases h with
  | @closed n hn =>
    refine ⟨?_, .more (by omega) hothers⟩
    rw [← List.replicate_succ']
    exact .closed (by omega)
  | @more n hn rest hrest =>
    have hclosed : ∀ c ∈ rest ++ [b.closing], b.Allows c :=
      List.forall_mem_append.2 ⟨hrest, List.forall_mem_singleton.2 b.allows_closing⟩
    have hmore : ∀ c ∈ rest ++ ',' :: others, b.Allows c :=
      List.forall_mem_append.2 ⟨hrest, List.forall_mem_cons.2
        ⟨b.allows_of_mem ',' (by decide), hothers⟩⟩
    rw [List.append_assoc, List.append_assoc]
    exact ⟨.more (by omega) hclosed, .more (by omega) hmore⟩

end Follows

/-- A beginning that cleaning leaves as it is, whatever follows. -/
structure Kept (b : Brackets) (s : List Char) : Prop where
  tidy : Tidy s
  head : ∃ c ∈ s.head?, isBlank c = false ∧ c ≠ ':' ∧ c ≠ '-'
  last : ∃ c ∈ s.getLast?, isNameChar c = true
  no_comma : ',' ∉ s
  allows : ∀ c ∈ s, b.Allows c

section Beginnings

variable {b : Brackets} {s : List Char}

theorem QualifiedName.exists_head (q : QualifiedName) :
    ∃ c ∈ q.chars.head?, isNameChar c = true := by
  obtain ⟨qualifiers, last⟩ := q
  cases qualifiers with
  | nil =>
    obtain ⟨c, r, hr⟩ := List.exists_cons_of_ne_nil last.ne_nil
    exact ⟨c, by simp [chars, hr], last.isName c (by simp [hr])⟩
  | cons first qualifiers =>
    obtain ⟨c, r, hr⟩ := List.exists_cons_of_ne_nil first.1.ne_nil
    exact ⟨c, by simp [chars, hr], first.1.isName c (by simp [hr])⟩

theorem kept_chars (b : Brackets) (q : QualifiedName) : Kept b q.chars := by
  have hchars : ∀ c ∈ q.chars, isBlank c = false ∧ c ≠ ',' ∧ b.Allows c := by
    intro c hc
    obtain hname | rfl | rfl := QualifiedName.mem_chars hc
    · exact ⟨isBlank_of_isNameChar hname, ne_of_isNameChar hname (by decide),
        b.allows_of_isNameChar hname⟩
    · exact ⟨by decide, by decide, b.allows_of_mem _ (by decide)⟩
    · exact ⟨by decide, by decide, b.allows_of_mem _ (by decide)⟩
  refine ⟨tidy_of_forall fun c hc => (hchars c hc).1, ?_, ?_, fun hc => (hchars _ hc).2.1 rfl,
    fun c hc => (hchars c hc).2.2⟩
  · obtain ⟨c, hc, hname⟩ := q.exists_head
    exact ⟨c, hc, isBlank_of_isNameChar hname, ne_of_isNameChar hname (by decide),
      ne_of_isNameChar hname (by decide)⟩
  · obtain ⟨c, hc⟩ := Option.isSome_iff_exists.1 (List.getLast?_isSome.2 q.last.ne_nil)
    refine ⟨c, ?_, q.last.isName c (List.mem_of_getLast? hc)⟩
    simp [QualifiedName.chars, hc]

/-- What stands in front of a kept text may be kept with it. -/
theorem Kept.append {w : List Char} (hs : Kept b s) (htidy : Tidy (w ++ s))
    (hhead : ∃ c ∈ w.head?, isBlank c = false ∧ c ≠ ':' ∧ c ≠ '-')
    (hw : ∀ c ∈ w, c ≠ ',' ∧ b.Allows c) : Kept b (w ++ s) where
  tidy := htidy
  head := by
    obtain ⟨c, hc, h⟩ := hhead
    exact ⟨c, by cases w <;> simp_all, h⟩
  last := by
    obtain ⟨c, hc, h⟩ := hs.last
    exact ⟨c, by simp_all, h⟩
  no_comma hc := by
    rcases List.mem_append.1 hc with hc | hc
    · exact (hw _ hc).1 rfl
    · exact hs.no_comma hc
  allows := List.forall_mem_append.2 ⟨fun c hc => (hw c hc).2, hs.allows⟩

/-- A word and a space may stand in front. -/
theorem Kept.append_space {w : List Char} (hs : Kept b s) (hne : w ≠ [])
    (hw : ∀ c ∈ w, isNameChar c = true ∨ c = '&' ∨ c = '\'') : Kept b (w ++ ' ' :: s) := by
  have hchars : ∀ c ∈ w, isBlank c = false ∧ c ≠ ':' ∧ c ≠ '-' ∧ c ≠ ',' ∧ b.Allows c := by
    intro c hc
    obtain hname | rfl | rfl := hw c hc
    · exact ⟨isBlank_of_isNameChar hname, ne_of_isNameChar hname (by decide),
        ne_of_isNameChar hname (by decide), ne_of_isNameChar hname (by decide),
        b.allows_of_isNameChar hname⟩
    · exact ⟨by decide, by decide, by decide, by decide, b.allows_of_mem _ (by decide)⟩
    · exact ⟨by decide, by decide, by decide, by decide, b.allows_of_mem _ (by decide)⟩
  obtain ⟨first, hfirst, hblank, -⟩ := hs.head
  have htidy : Tidy (w ++ [' '] ++ s) := by
    rw [List.append_assoc]
    exact (tidy_of_forall fun c hc => (hchars c hc).1).append
      (hs.tidy.space ⟨first, hfirst, hblank⟩)
  rw [List.append_cons]
  refine hs.append htidy ?_ ?_
  · obtain ⟨c, w, rfl⟩ := List.exists_cons_of_ne_nil hne
    obtain ⟨hc, hcolon, hminus, -⟩ := hchars c List.mem_cons_self
    exact ⟨c, rfl, hc, hcolon, hminus⟩
  · rw [List.forall_mem_append, List.forall_mem_singleton]
    exact ⟨fun c hc => (hchars c hc).2.2.2, by decide, b.allows_of_mem _ (by decide)⟩

theorem Kept.mark (m : Mark) (hs : Kept b s) : Kept b (m.chars ++ s) := by
  have hnames : ∀ c ∈ "mutdynimpl".toList, isNameChar c = true :=
    forall_mem_of_all (by decide +kernel)
  cases m with
  | ref =>
    have hsign : Tidy ['&'] := tidy_of_forall (forall_mem_of_all (by decide))
    refine hs.append (hsign.append hs.tidy) ⟨'&', rfl, by decide⟩ ?_
    simpa [Mark.chars] using b.allows_of_mem '&' (by decide)
  | refMut =>
    refine hs.append_space (w := "&mut".toList) (by decide) fun c hc => ?_
    rcases List.mem_cons.1 hc with rfl | hc
    · exact .inr (.inl rfl)
    · exact .inl (hnames c (forall_mem_of_all (by decide) c hc))
  | refFor lifetime =>
    have h := hs.append_space (w := '&' :: '\'' :: lifetime.chars) (by simp) fun c hc => ?_
    · simpa [Mark.chars] using h
    · simp only [List.mem_cons] at hc
      obtain rfl | rfl | hc := hc
      · exact .inr (.inl rfl)
      · exact .inr (.inr rfl)
      · exact .inl (lifetime.isName c hc)
  | dyn =>
    exact hs.append_space (w := "dyn".toList) (by decide) fun c hc =>
      .inl (hnames c (forall_mem_of_all (by decide) c hc))
  | impl =>
    exact hs.append_space (w := "impl".toList) (by decide) fun c hc =>
      .inl (hnames c (forall_mem_of_all (by decide) c hc))

theorem Kept.marks (ms : List Mark) (hs : Kept b s) : Kept b (ms.flatMap Mark.chars ++ s) := by
  induction ms with
  | nil => exact hs
  | cons m ms ih =>
    rw [List.flatMap_cons, List.append_assoc]
    exact ih.mark m

/-- A name and an opening bracket may stand in front. -/
theorem Kept.app (q : QualifiedName) (hs : Kept b s) : Kept b (q.chars ++ b.opening :: s) := by
  have hq := kept_chars b q
  have hopening : isBlank b.opening = false ∧ b.opening ≠ ',' := by cases b <;> decide
  rw [List.append_cons]
  refine hs.append ?_ ?_ ?_
  · have hbracket : Tidy [b.opening] := tidy_of_forall (by simpa using hopening.1)
    exact (hq.tidy.append hbracket).append hs.tidy
  · obtain ⟨c, hc, h⟩ := hq.head
    exact ⟨c, by simp_all, h⟩
  · rw [List.forall_mem_append, List.forall_mem_singleton]
    exact ⟨fun c hc => ⟨fun h => hq.no_comma (h ▸ hc), hq.allows c hc⟩, hopening.2,
      b.allows_opening⟩

theorem kept_spine (b : Brackets) : ∀ t : TypeExpr, Kept b (t.spine b)
  | .name q => kept_chars b q
  | .app q first _ => (kept_spine b first).app q
  | .marked m t => (kept_spine b t).mark m

end Beginnings

/-! ## Cleaning -/

section Cleaning

variable {b : Brackets} {depth : Nat} {s r : List Char}

theorem Kept.trimBoth (hs : Kept b s) (r : List Char) :
    ∃ r', r' <+: r ∧ trimBoth (s ++ r) = s ++ r' := by
  obtain ⟨first, hfirst, hblank, -⟩ := hs.head
  obtain ⟨last, hlast, hname⟩ := hs.last
  have hleft : trimLeft (s ++ r) = s ++ r := by
    apply trimLeft_of_head
    obtain ⟨w, rfl⟩ : ∃ w, s = first :: w := by cases s <;> simp_all
    simpa using hblank
  refine ⟨_, prefix_dropEndWhile isBlank r, ?_⟩
  rw [Text.trimBoth, hleft, trimRight,
    dropEndWhile_append ⟨last, hlast, isBlank_of_isNameChar hname⟩]

theorem Follows.collapseBlanks (hs : Kept b s) (hr : Follows b depth r) :
    ∃ r', Follows b depth r' ∧ collapseBlanks (s ++ r) = s ++ r' := by
  have hblank : isBlank b.closing = false := by cases b <;> rfl
  have hclosed : ∀ n, Tidy (s ++ List.replicate n b.closing) := by
    intro n
    refine hs.tidy.append (tidy_of_forall fun c hc => ?_)
    rw [List.eq_of_mem_replicate hc]
    exact hblank
  have hhead : ∀ u : List Char, ∃ c ∈ (s ++ u).head?, isBlank c = false := by
    obtain ⟨c, hc, hblank, -⟩ := hs.head
    exact fun u => ⟨c, by cases s <;> simp_all, hblank⟩
  cases hr with
  | @closed n hn => exact ⟨_, .closed hn, collapseBlanks_of_tidy (hclosed n) (hhead _)⟩
  | @more n hn others hothers =>
    have hcomma : Tidy (s ++ List.replicate n b.closing ++ [',']) :=
      (hclosed n).append (tidy_of_forall (forall_mem_of_all (by decide)))
    obtain ⟨rest, hrest⟩ := collapseBlanks_append hcomma (by
      rw [List.append_assoc]
      exact hhead _) others
    refine ⟨List.replicate n b.closing ++ ',' :: rest, .more hn fun c hc => ?_, ?_⟩
    · have hmem : c ∈ Text.collapseBlanks (s ++ List.replicate n b.closing ++ [','] ++ others) := by
        rw [hrest]
        exact List.mem_append_right _ hc
      rcases mem_collapseBlanks hmem with rfl | hmem
      · exact b.allows_of_mem ' ' (by decide)
      · rw [List.append_assoc, List.append_assoc, List.mem_append] at hmem
        rcases hmem with hmem | hmem
        · exact hs.allows c hmem
        · exact (Follows.more hn hothers).allows c hmem
    · simpa using hrest

/-- Cleaning may only shorten what follows a kept text. -/
theorem cleanChars_append (hs : Kept b s) (hr : Follows b depth r) :
    ∃ r', Follows b depth r' ∧ cleanChars (s ++ r) = s ++ r' := by
  obtain ⟨u, hu, htrim⟩ := hs.trimBoth r
  obtain ⟨first, hfirst, -, hcolon, hminus⟩ := hs.head
  obtain ⟨w, rfl⟩ : ∃ w, s = first :: w := by cases s <;> simp_all
  have hnocolon : afterLead? [':'] (first :: w ++ u) = none := by
    rw [afterLead?_eq_none_iff]
    simp [hcolon.symm]
  have hnoarrow : afterLead? ['-', '>'] (first :: w ++ u) = none := by
    rw [afterLead?_eq_none_iff]
    simp [hminus.symm]
  obtain ⟨r', hr', hcollapse⟩ := Follows.collapseBlanks hs (hr.mono hu)
  refine ⟨r', hr', ?_⟩
  simp only [cleanChars, htrim, hnocolon, hnoarrow, Option.getD_none]
  exact hcollapse

/-- Array brackets, question marks and blanks at the end are none of the chain's. -/
theorem Kept.trimEnd (hs : Kept b s) (hr : Follows b depth r) :
    ∃ r', Follows b depth r' ∧
      Text.trimBoth (dropEndWhile (· = '?') (dropAllTails ['[', ']'] (s ++ r))) = s ++ r' := by
  obtain ⟨last, hlast, hname⟩ := hs.last
  have hbrackets : last ∉ ['[', ']'] := fun hmem =>
    ne_of_isNameChar hname (by revert hmem; simp; rintro (rfl | rfl) <;> decide) rfl
  have hquestion : decide (last = '?') = false :=
    decide_eq_false (ne_of_isNameChar hname (by decide))
  obtain ⟨r₁, hr₁, hsquare⟩ := dropAllTails_append ⟨last, hlast, hbrackets⟩ r
  have hmarks : dropEndWhile (· = '?') (s ++ r₁) = s ++ dropEndWhile (· = '?') r₁ :=
    dropEndWhile_append ⟨last, hlast, hquestion⟩ r₁
  obtain ⟨r₂, hr₂, htrim⟩ := hs.trimBoth (dropEndWhile (· = '?') r₁)
  refine ⟨r₂, hr.mono ?_, by rw [hsquare, hmarks, htrim]⟩
  exact (hr₂.trans (prefix_dropEndWhile _ _)).trans hr₁

/-- Marks in front go, and so may some segments before the last one. -/
theorem core_append (ms : List Mark) (q : QualifiedName) {v : List Char}
    (hv : QualifiedName.Opens v) (hdepth : v = [] → depth = 0)
    (hkept : ∀ p : QualifiedName, Kept b (p.chars ++ v)) (hr : Follows b depth r) :
    ∃ (p : QualifiedName) (r' : List Char), p.last = q.last ∧ Follows b depth r' ∧
      core (ms.flatMap Mark.chars ++ (q.chars ++ v) ++ r) = p.chars ++ v ++ r' := by
  have hmarks : Kept b (ms.flatMap Mark.chars ++ (q.chars ++ v)) := (hkept q).marks ms
  obtain ⟨r₁, hr₁, hclean⟩ := cleanChars_append hmarks hr
  have hbar : cut? ['|'] (ms.flatMap Mark.chars ++ (q.chars ++ v) ++ r₁) = none := by
    refine cut?_of_not_mem (c := '|') List.mem_cons_self fun hmem => ?_
    have hallows : b.Allows '|' := by
      rcases List.mem_append.1 hmem with hmem | hmem
      · exact hmarks.allows _ hmem
      · exact hr₁.allows _ hmem
    cases b <;> simp [Brackets.Allows] at hallows
  have hopens : QualifiedName.Opens (v ++ r₁) := by
    cases v with
    | nil =>
      obtain rfl : depth = 0 := hdepth rfl
      simp [hr₁.eq_nil, QualifiedName.Opens]
    | cons c v => simpa [QualifiedName.Opens] using hv
  obtain ⟨p, hp, hbare, hmarked⟩ := q.exists_bare hopens
  have hdrop : dropMarks (ms.flatMap Mark.chars ++ (q.chars ++ v) ++ r₁) = p.chars ++ v ++ r₁ := by
    rw [List.append_assoc, List.append_assoc, List.append_assoc]
    exact (hmarked.append_chars ms).dropMarks hbare
  obtain ⟨r₂, hr₂, htrim⟩ := (hkept p).trimEnd hr₁
  refine ⟨p, r₂, hp, hr₂, ?_⟩
  simp only [core, hclean, hbar, hdrop, Option.map_none, Option.getD_none]
  exact htrim

/-- The first argument of a wrapper is read up to a comma, without closing brackets at the end. -/
theorem Follows.firstArgument (hs : Kept b s) (hr : Follows b (depth + 1) r) :
    ∃ r', Follows b depth r' ∧ firstArgument (s ++ r) = s ++ r' := by
  obtain ⟨last, hlast, hname⟩ := hs.last
  have hclosing : b.closing ≠ ',' ∧ (b.closing = '>' ∨ b.closing = ']') := by cases b <;> decide
  have hstop : (last = '>' || last = ']') = false := by
    simp [ne_of_isNameChar hname (show '>' ∈ signs by decide),
      ne_of_isNameChar hname (show ']' ∈ signs by decide)]
  have hchars : ∀ c ∈ s, decide (c ≠ ',') = true := fun c hc =>
    decide_eq_true fun h => hs.no_comma (h ▸ hc)
  rw [TypeName.firstArgument, dropEndWhile_append ⟨last, hlast, hstop⟩,
    List.takeWhile_append_of_pos hchars]
  cases hr with
  | @closed n hn =>
    refine ⟨[], .closed (n := 0) (Nat.zero_le _), ?_⟩
    have hdrop : dropEndWhile (fun c => c = '>' || c = ']') (List.replicate n b.closing) = [] := by
      simpa [dropEndWhile] using fun _ => or_iff_not_imp_left.1 hclosing.2
    simp [hdrop]
  | @more n hn others hothers =>
    refine ⟨List.replicate n b.closing, .closed (Nat.lt_succ_iff.1 hn), ?_⟩
    rw [List.append_cons, dropEndWhile_append ⟨',', by simp, by decide⟩, List.append_assoc,
      List.takeWhile_append_of_pos]
    · simp
    · intro c hc
      rw [List.eq_of_mem_replicate hc]
      simpa using hclosing.1

end Cleaning

/-! ## Names -/

theorem QualifiedName.not_mem_chars {p : QualifiedName} {c : Char} (hc : c ∈ signs)
    (h : c ≠ ':' ∧ c ≠ '.') : c ∉ p.chars := by
  intro hmem
  obtain hname | rfl | rfl := mem_chars hmem
  · exact ne_of_isNameChar hname hc rfl
  · exact h.1 rfl
  · exact h.2 rfl

theorem trimBoth_chars (p : QualifiedName) : trimBoth p.chars = p.chars := by
  obtain ⟨r, hr, htrim⟩ := (kept_chars .angle p).trimBoth []
  rw [List.prefix_nil.1 hr, List.append_nil] at htrim
  exact htrim

theorem head_chars (p : QualifiedName) : head p.chars = (p.chars, none) := by
  have hangle : cut? ['<'] p.chars = none :=
    cut?_of_not_mem List.mem_cons_self (QualifiedName.not_mem_chars (by decide) (by decide))
  have hsquare : cut? ['['] p.chars = none :=
    cut?_of_not_mem List.mem_cons_self (QualifiedName.not_mem_chars (by decide) (by decide))
  simp [head, hangle, hsquare]

/-- The name of a type ends at its opening bracket. -/
theorem head_app {b : Brackets} (p : QualifiedName) {s : List Char} (hs : ∀ c ∈ s, b.Allows c) :
    head (p.chars ++ b.opening :: s) = (p.chars, some s) := by
  have hfound : ∀ c ∈ ['<', '['], cut? [c] (p.chars ++ c :: s) = some (p.chars, s) := by
    intro c hc
    have hnot : c ∉ p.chars := by
      obtain rfl | rfl : c = '<' ∨ c = '[' := by simpa using hc
      · exact QualifiedName.not_mem_chars (by decide) (by decide)
      · exact QualifiedName.not_mem_chars (by decide) (by decide)
    exact cut?_append hnot [] s
  unfold head
  cases b with
  | angle =>
    rw [Brackets.opening, hfound '<' (by decide), Option.some_or]
    simp [trimBoth_chars]
  | square =>
    have hnone : cut? ['<'] (p.chars ++ '[' :: s) = none := by
      refine cut?_of_not_mem List.mem_cons_self fun hmem => ?_
      simp only [List.mem_append, List.mem_cons] at hmem
      obtain hmem | hmem | hmem := hmem
      · exact QualifiedName.not_mem_chars (by decide) (by decide) hmem
      · exact absurd hmem (by decide)
      · exact (hs '<' hmem).2 rfl
    rw [Brackets.opening, hnone, hfound '[' (by decide), Option.none_or]
    simp [trimBoth_chars]

theorem lastSegment_chars (p : QualifiedName) : lastSegment p.chars = p.last.chars := by
  obtain ⟨qualifiers, last⟩ := p
  have hlast : ∀ c ∈ last.chars, (c = ':' || c = '.') = false := by
    intro c hc
    simp [ne_of_isNameChar (last.isName c hc) (show ':' ∈ signs by decide),
      ne_of_isNameChar (last.isName c hc) (show '.' ∈ signs by decide)]
  cases qualifiers using List.reverseRecOn with
  | nil =>
    exact afterLast_of_forall hlast
  | append_singleton qualifiers q =>
    obtain ⟨s, j⟩ := q
    have hjoint : ∃ w c, j.chars = w ++ [c] ∧ (c = ':' || c = '.') = true := by
      cases j
      · exact ⟨[':'], ':', rfl, rfl⟩
      · exact ⟨[], '.', rfl, rfl⟩
    obtain ⟨w, c, hj, hc⟩ := hjoint
    have hchars : QualifiedName.chars ⟨qualifiers ++ [(s, j)], last⟩ =
        (qualifiers.flatMap (fun s => s.1.chars ++ s.2.chars) ++ (s.chars ++ w)) ++
          c :: last.chars := by
      simp [QualifiedName.chars, hj]
    rw [hchars, lastSegment, afterLast_append hc hlast]

theorem outer?_of_head {raw : List Char} {p : QualifiedName} (h : (head (core raw)).1 = p.chars) :
    outer? raw = some p.last.chars := by
  have hne : p.last.chars.isEmpty = false := by simpa using p.last.ne_nil
  have hall : p.last.chars.all isNameChar = true := List.all_eq_true.2 p.last.isName
  simp [outer?, h, lastSegment_chars, hne, hall]

theorem simpleChars?_eq_of_wrapped {raw arg : List Char} (h : wrapped? raw = some arg) :
    simpleChars? raw = simpleChars? arg := by
  have hsome : (wrapped? raw).isSome = true := Option.isSome_iff_exists.2 ⟨arg, h⟩
  rw [simpleChars?, dif_pos hsome, Option.get_of_eq_some hsome h]

theorem simpleChars?_eq_outer? {raw : List Char} (h : wrapped? raw = none) :
    simpleChars? raw = outer? raw := by
  have hnone : ¬ (wrapped? raw).isSome = true := by
    rw [h]
    exact Bool.false_ne_true
  rw [simpleChars?, dif_neg hnone]

theorem simpleChars?_of_name {raw : List Char} {p : QualifiedName}
    (h : head (core raw) = (p.chars, none)) : simpleChars? raw = some p.last.chars := by
  have hwrapped : wrapped? raw = none := by
    simp only [wrapped?, h, Option.map_none, ite_self]
  rw [simpleChars?_eq_outer? hwrapped, outer?_of_head (congrArg Prod.fst h)]

/-- One step of looking into a type with arguments. -/
theorem simpleChars?_of_app {raw inner : List Char} {p : QualifiedName}
    (h : head (core raw) = (p.chars, some inner)) :
    simpleChars? raw = if wrappers.contains (String.ofList p.last.chars) then
      simpleChars? (firstArgument inner) else some p.last.chars := by
  have hwrapped : wrapped? raw = if wrappers.contains (String.ofList p.last.chars) then
      some (firstArgument inner) else none := by
    simp only [wrapped?, h, lastSegment_chars, Option.map_some]
  by_cases hwrapper : wrappers.contains (String.ofList p.last.chars) = true
  · rw [if_pos hwrapper] at hwrapped ⊢
    exact simpleChars?_eq_of_wrapped hwrapped
  · rw [if_neg hwrapper] at hwrapped ⊢
    rw [simpleChars?_eq_outer? hwrapped, outer?_of_head (congrArg Prod.fst h)]

/-- The name depends on the chain of first arguments alone. -/
theorem simpleChars?_spine (b : Brackets) : ∀ (t : TypeExpr) (ms : List Mark) {r : List Char},
    Follows b t.depth r →
      simpleChars? (ms.flatMap Mark.chars ++ t.spine b ++ r) = some t.target.last.chars
  | .name q, ms, r, hr => by
    obtain ⟨p, r', hp, hr', hcore⟩ := core_append ms q (v := []) (by simp [QualifiedName.Opens])
      (fun _ => rfl) (fun p => by simpa using kept_chars b p) hr
    obtain rfl : r' = [] := hr'.eq_nil
    rw [List.append_nil, List.append_nil, List.append_nil] at hcore
    have hhead : head (core (ms.flatMap Mark.chars ++ q.chars ++ r)) = (p.chars, none) := by
      rw [hcore, head_chars]
    rw [TypeExpr.spine, TypeExpr.target, simpleChars?_of_name hhead, hp]
  | .app q first others, ms, r, hr => by
    have hopens : QualifiedName.Opens (b.opening :: first.spine b) := by
      cases b <;> simp [QualifiedName.Opens, Brackets.opening]
    have hfirst := kept_spine b first
    obtain ⟨p, r', hp, hr', hcore⟩ := core_append ms q hopens (by simp)
      (fun p => hfirst.app p) hr
    have hhead :
        head (core (ms.flatMap Mark.chars ++ (q.chars ++ b.opening :: first.spine b) ++ r)) =
          (p.chars, some (first.spine b ++ r')) := by
      rw [hcore, List.append_assoc, List.cons_append]
      exact head_app p (List.forall_mem_append.2 ⟨hfirst.allows, hr'.allows⟩)
    obtain ⟨r'', hr'', hargument⟩ := Follows.firstArgument hfirst hr'
    rw [TypeExpr.spine, TypeExpr.target, simpleChars?_of_app hhead, hp, hargument]
    by_cases hwrapper : wrappers.contains (String.ofList q.last.chars) = true
    · rw [if_pos hwrapper, if_pos hwrapper]
      exact simpleChars?_spine b first [] hr''
    · rw [if_neg hwrapper, if_neg hwrapper]
  | .marked m t, ms, r, hr => by
    have h := simpleChars?_spine b t (ms ++ [m]) hr
    simpa [TypeExpr.spine, TypeExpr.target] using h

theorem Style.allows_gap (style : Style) : ∀ c ∈ style.gap, style.brackets.Allows c := by
  intro c hc
  have hblank := style.gap_blank c hc
  have hbar : c ≠ '|' := by
    rintro rfl
    simp [isBlank] at hblank
  have hangle : c ≠ '<' := by
    rintro rfl
    simp [isBlank] at hblank
  cases style.brackets <;> simp [Brackets.Allows, hbar, hangle]

namespace TypeExpr

mutual

theorem allows_chars (style : Style) : ∀ t : TypeExpr, ∀ c ∈ t.chars style, style.brackets.Allows c
  | name q => (kept_chars _ q).allows
  | app q first others => by
    rw [chars, List.forall_mem_append, List.forall_mem_cons, List.forall_mem_append,
      List.forall_mem_append, List.forall_mem_singleton]
    exact ⟨(kept_chars _ q).allows, Brackets.allows_opening _, allows_chars style first,
      allows_othersChars style others, Brackets.allows_closing _⟩
  | marked m t => by
    rw [chars, List.forall_mem_append]
    have hmark : ∀ c ∈ m.chars, style.brackets.Allows c := fun c hc =>
      ((kept_spine style.brackets t).mark m).allows c (List.mem_append_left _ hc)
    exact ⟨hmark, allows_chars style t⟩

theorem allows_othersChars (style : Style) : ∀ ts : List TypeExpr, ∀ c ∈ othersChars style ts,
    style.brackets.Allows c
  | [] => by simp [othersChars]
  | t :: rest => by
    rw [othersChars, List.forall_mem_cons, List.forall_mem_append, List.forall_mem_append]
    exact ⟨Brackets.allows_of_mem _ ',' (by decide), style.allows_gap, allows_chars style t,
      allows_othersChars style rest⟩

end

/-- The text is the chain of first arguments and what may follow it. -/
theorem exists_chars_eq (style : Style) : ∀ t : TypeExpr, ∃ r,
    Follows style.brackets t.depth r ∧ t.chars style = t.spine style.brackets ++ r
  | name q => ⟨[], .closed (n := 0) (Nat.zero_le _), by simp [chars, spine]⟩
  | app q first others => by
    obtain ⟨r, hr, hfirst⟩ := exists_chars_eq style first
    refine ⟨r ++ (othersChars style others ++ [style.brackets.closing]), ?_, ?_⟩
    · cases others with
      | nil => exact (hr.argument (List.forall_mem_nil _)).1
      | cons t rest =>
        have hothers : ∀ c ∈ style.gap ++ (t.chars style ++ othersChars style rest) ++
            [style.brackets.closing], style.brackets.Allows c := by
          have h := allows_othersChars style (t :: rest)
          rw [othersChars, List.forall_mem_cons] at h
          rw [List.forall_mem_append, List.forall_mem_singleton]
          exact ⟨h.2, Brackets.allows_closing _⟩
        exact (hr.argument hothers).2
    · simp [chars, spine, hfirst]
  | marked m t => by
    obtain ⟨r, hr, ht⟩ := exists_chars_eq style t
    exact ⟨r, hr, by rw [chars, ht, spine, List.append_assoc]⟩

end TypeExpr

/-- The simple name of the text of a type expression is the last segment of the name that is reached
when each applied wrapper gives way to its first argument. -/
theorem simple_name_of_text (style : Style) (t : TypeExpr) :
    simple? (String.ofList (t.chars style)) = some (String.ofList t.target.last.chars) := by
  obtain ⟨r, hr, hchars⟩ := t.exists_chars_eq style
  have hname := simpleChars?_spine style.brackets t [] hr
  rw [List.flatMap_nil, List.nil_append, ← hchars] at hname
  rw [simple?, String.toList_ofList, hname, Option.map_some]

end CodeImpact.TypeName

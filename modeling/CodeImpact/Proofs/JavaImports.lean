import CodeImpact.Grammar.Java
import CodeImpact.Proofs.CallOwners
import CodeImpact.Proofs.Trimming

/-!
# Imports of Java

An import names a type, a member of a type, or all that a type or a package has, and blanks may
stand around its words and signs. It is read off the text of its declaration, and each form is read
as it stands, with one exception: a plain import of a name that starts with the letters of `static`
loses them and is taken for a static import of the rest.
-/

namespace CodeImpact.Grammar.Java

open Text

/-! ## Forms of imports -/

/-- An identifier: characters without blanks and without the signs of imports. -/
structure Identifier where
  chars : List Char
  ne_nil : chars ≠ []
  plain : ∀ c ∈ chars, isBlank c = false ∧ c ∉ ['.', ';', '*']

/-- An identifier whose characters are given. -/
def Identifier.ofChars (chars : List Char) (ne_nil : chars ≠ [])
    (plain : chars.all (fun c => isBlank c = false ∧ c ∉ ['.', ';', '*']) = true) : Identifier :=
  ⟨chars, ne_nil, forall_mem_of_all plain⟩

/-- Identifiers with dots between them. -/
structure DottedName where
  owners : List Identifier
  last : Identifier

/-- Texts with dots between them. -/
def dotted (parts : List (List Char)) : List Char :=
  ['.'].intercalate parts

namespace DottedName

def parts (q : DottedName) : List (List Char) :=
  q.owners.map Identifier.chars ++ [q.last.chars]

def chars (q : DottedName) : List Char :=
  dotted q.parts

/-- The name without its last identifier. -/
def ownerChars (q : DottedName) : List Char :=
  dotted (q.owners.map Identifier.chars)

end DottedName

inductive ImportForm
  /-- `import q;` -/
  | single (q : DottedName)
  /-- `import static q.m;` -/
  | member (q : DottedName) (m : Identifier)
  /-- `import q.*;` or `import static q.*;` -/
  | all (isStatic : Bool) (q : DottedName)

namespace ImportForm

def isStatic : ImportForm → Bool
  | single _ => false
  | member _ _ => true
  | all isStatic _ => isStatic

/-- Where the imported names come from. -/
def origin : ImportForm → DottedName
  | single q => q
  | member q _ => q
  | all _ q => q

/-- The imported name. -/
def symbol : ImportForm → List Char
  | single q => q.last.chars
  | member _ m => m.chars
  | all _ _ => ['*']

/-- What stands between the dots. -/
def parts : ImportForm → List (List Char)
  | single q => q.parts
  | member q m => q.parts ++ [m.chars]
  | all _ q => q.parts ++ [['*']]

end ImportForm

/-! ## Texts of imports -/

/-- Blanks, perhaps none. -/
def AllBlank (gap : List Char) : Prop :=
  ∀ c ∈ gap, isBlank c = true

instance (gap : List Char) : Decidable (AllBlank gap) :=
  decidable_of_iff (gap.all isBlank = true) List.all_eq_true

/-- Tokens with blanks around them. -/
inductive Spaced : List (List Char) → List Char → Prop
  | nil {gap : List Char} (hgap : AllBlank gap) : Spaced [] gap
  | cons {gap token text : List Char} {tokens : List (List Char)} (hgap : AllBlank gap)
    (h : Spaced tokens text) : Spaced (token :: tokens) (gap ++ (token ++ text))

/-- The text of an import, with blanks around all words and signs, and at least one behind each
keyword. -/
inductive ImportForm.Written (form : ImportForm) : List Char → Prop
  | plain {lead gap text tail : List Char} (hform : form.isStatic = false) (hlead : AllBlank lead)
    (hgap : AllBlank gap) (hne : gap ≠ [])
    (htext : Spaced (form.parts.intersperse ['.']) text) (htail : AllBlank tail) :
    form.Written (lead ++ ("import".toList ++ (gap ++ (text ++ ';' :: tail))))
  | static {lead gap gap' text tail : List Char} (hform : form.isStatic = true)
    (hlead : AllBlank lead) (hgap : AllBlank gap) (hne : gap ≠ []) (hgap' : AllBlank gap')
    (hne' : gap' ≠ []) (htext : Spaced (form.parts.intersperse ['.']) text)
    (htail : AllBlank tail) :
    form.Written (lead ++ ("import".toList ++ (gap ++ ("static".toList ++ (gap' ++ text) ++
      ';' :: tail))))

theorem filter_of_allBlank {gap : List Char} (h : AllBlank gap) :
    gap.filter (fun c => !isBlank c) = [] := by
  refine List.filter_eq_nil_iff.2 fun c hc => ?_
  simp [h c hc]

/-- Without its blanks a text is its tokens. -/
theorem Spaced.filter {tokens : List (List Char)} {text : List Char} (h : Spaced tokens text)
    (htokens : ∀ token ∈ tokens, ∀ c ∈ token, isBlank c = false) :
    text.filter (fun c => !isBlank c) = tokens.flatten := by
  induction h with
  | nil hgap => exact filter_of_allBlank hgap
  | @cons gap token text tokens hgap h ih =>
    obtain ⟨htoken, htokens⟩ := List.forall_mem_cons.1 htokens
    have hkept : token.filter (fun c => !isBlank c) = token :=
      List.filter_eq_self.2 fun c hc => by simp [htoken c hc]
    rw [List.filter_append, List.filter_append, filter_of_allBlank hgap, hkept, ih htokens]
    rfl

/-- Between tokens there are blanks only. -/
theorem Spaced.mem {tokens : List (List Char)} {text : List Char} (h : Spaced tokens text)
    {c : Char} (hc : c ∈ text) : isBlank c = true ∨ ∃ token ∈ tokens, c ∈ token := by
  induction h with
  | nil hgap => exact .inl (hgap c hc)
  | @cons gap token text tokens hgap h ih =>
    rw [List.mem_append, List.mem_append] at hc
    obtain hc | hc | hc := hc
    · exact .inl (hgap c hc)
    · exact .inr ⟨token, List.mem_cons_self, hc⟩
    · obtain hblank | ⟨other, hother, hc⟩ := ih hc
      · exact .inl hblank
      · exact .inr ⟨other, List.mem_cons_of_mem _ hother, hc⟩

theorem Spaced.append_left {tokens : List (List Char)} {gap text : List Char}
    (h : Spaced tokens text) (hgap : AllBlank gap) : Spaced tokens (gap ++ text) := by
  cases h with
  | nil h => exact .nil (List.forall_mem_append.2 ⟨hgap, h⟩)
  | cons h htext =>
    rw [← List.append_assoc]
    exact .cons (List.forall_mem_append.2 ⟨hgap, h⟩) htext

/-! ## Dotted names -/

theorem dotted_cons (part : List Char) (rest : List (List Char)) :
    dotted (part :: rest) = part ++ rest.flatMap (['.'] ++ ·) :=
  intercalate_cons_eq _ part rest

theorem dotted_concat {parts : List (List Char)} (h : parts ≠ []) (part : List Char) :
    dotted (parts ++ [part]) = dotted parts ++ '.' :: part := by
  obtain ⟨first, rest, rfl⟩ := List.exists_cons_of_ne_nil h
  rw [List.cons_append, dotted_cons, dotted_cons, List.flatMap_append]
  simp

theorem Identifier.not_mem_signs (m : Identifier) {c : Char} (hc : c ∈ ['.', ';', '*']) :
    c ∉ m.chars := fun hmem => (m.plain c hmem).2 hc

namespace DottedName

theorem parts_ne_nil (q : DottedName) : q.parts ≠ [] := by
  simp [parts]

theorem plain_of_mem_parts {q : DottedName} {part : List Char} (h : part ∈ q.parts) :
    part ≠ [] ∧ ∀ c ∈ part, isBlank c = false ∧ c ∉ ['.', ';', '*'] := by
  rw [parts, List.mem_append, List.mem_map, List.mem_singleton] at h
  obtain ⟨m, -, rfl⟩ | rfl := h
  · exact ⟨m.ne_nil, m.plain⟩
  · exact ⟨q.last.ne_nil, q.last.plain⟩

theorem chars_of_owners {q : DottedName} (h : q.owners ≠ []) :
    q.chars = q.ownerChars ++ '.' :: q.last.chars :=
  dotted_concat (by simpa using h) q.last.chars

theorem chars_of_lone {q : DottedName} (h : q.owners = []) : q.chars = q.last.chars := by
  simp [chars, parts, h, dotted]

theorem exists_last (q : DottedName) : ∃ c ∈ q.chars.getLast?, c ≠ '*' := by
  obtain ⟨c, hc⟩ := Option.isSome_iff_exists.1 (List.getLast?_isSome.2 q.last.ne_nil)
  have hmem : c ∈ q.last.chars := List.mem_of_getLast? hc
  refine ⟨c, ?_, fun hstar => q.last.not_mem_signs (by decide) (hstar ▸ hmem)⟩
  by_cases h : q.owners = []
  · rwa [chars_of_lone h]
  · rw [chars_of_owners h, List.append_cons, List.getLast?_append, hc]
    rfl

theorem chars_ne_nil (q : DottedName) : q.chars ≠ [] := by
  obtain ⟨c, hc, -⟩ := q.exists_last
  rintro h
  simp [h] at hc

end DottedName

/-! ## Paths without blanks -/

/-- What is left of a declaration when its first keyword and its end are taken away. -/
def body (text : List Char) : List Char :=
  trimBoth (dropEndWhile (· = ';') (dropAllLeads "import".toList (trimBoth text)))

/-- What is left when the keyword of static imports and all blanks are taken away too. -/
def path (text : List Char) : List Char :=
  ((afterLead? "static".toList (body text)).getD (body text)).filter fun c => !isBlank c

/-- The keyword and the semicolon are taken off in the order of the reader. -/
theorem body_eq (text : List Char) :
    trimBoth (dropEndWhile (· = ';') (dropAllLeads "import".toList (trimBoth text))) = body text :=
  rfl

/-- What is left after the word for static imports, without blanks. -/
theorem path_eq (text : List Char) :
    ((afterLead? "static".toList (body text)).getD (body text)).filter (fun c => !isBlank c) =
      path text :=
  rfl

section Paths

variable {text : List Char} {q : DottedName}

theorem beforeTail?_chars (q : DottedName) : beforeTail? ['.', '*'] q.chars = none := by
  obtain ⟨c, hc, hstar⟩ := q.exists_last
  refine Option.eq_none_iff_forall_ne_some.2 fun package h => ?_
  rw [beforeTail?_eq_some h] at hc
  exact hstar (by simpa using hc.symm)

/-- A path with an asterisk imports everything of the name before it. -/
theorem readImport?_all (h : path text = q.chars ++ ['.', '*']) (line : Nat) :
    readImport? text line = some ⟨String.ofList q.chars, [⟨"*", none⟩], line⟩ := by
  have hne : q.chars ++ ['.', '*'] ≠ [] := by simp
  simp only [readImport?, body_eq, path_eq, h, hne, if_false, beforeTail?_append]

/-- A plain path imports its last name from the whole path. -/
theorem readImport?_single (hplain : (afterLead? "static".toList (body text)).isSome = false)
    (h : path text = q.chars) (line : Nat) :
    readImport? text line =
      some ⟨String.ofList q.chars, [⟨String.ofList q.last.chars, none⟩], line⟩ := by
  have hdot : ∀ c ∈ q.last.chars, decide (c = '.') = false := fun c hc =>
    decide_eq_false fun h => q.last.not_mem_signs (by decide) (h ▸ hc)
  have hlast : afterLast (· = '.') q.chars = q.last.chars := by
    by_cases h : q.owners = []
    · rw [q.chars_of_lone h]
      exact afterLast_of_forall hdot
    · rw [q.chars_of_owners h, afterLast_append (decide_eq_true rfl) hdot]
  simp only [readImport?, body_eq, path_eq, h, hplain, q.chars_ne_nil, beforeTail?_chars, hlast,
    Bool.false_eq_true, if_false]

/-- A static path imports its last name from what owns it. -/
theorem readImport?_static (hstatic : (afterLead? "static".toList (body text)).isSome = true)
    (h : path text = q.chars) (line : Nat) :
    readImport? text line =
      some ⟨String.ofList q.ownerChars, [⟨String.ofList q.last.chars, none⟩], line⟩ := by
  have hdot : '.' ∉ q.last.chars := q.last.not_mem_signs (by decide)
  by_cases howners : q.owners = []
  · have hcut : cutLast? ['.'] q.chars = none := by
      have hreverse : cut? ['.'] q.last.chars.reverse = none :=
        cut?_of_not_mem List.mem_cons_self (by simpa using hdot)
      simp [q.chars_of_lone howners, cutLast?, hreverse]
    have howner : q.ownerChars = [] := by simp [DottedName.ownerChars, howners, dotted]
    simp only [readImport?, body_eq, path_eq, h, hstatic, q.chars_ne_nil, beforeTail?_chars, hcut,
      howner, if_false, if_true]
    rw [q.chars_of_lone howners]
  · have hcut : cutLast? ['.'] q.chars = some (q.ownerChars, q.last.chars) := by
      rw [q.chars_of_owners howners]
      simpa using cutLast?_append hdot q.ownerChars []
    simp only [readImport?, body_eq, path_eq, h, hstatic, q.chars_ne_nil, beforeTail?_chars, hcut,
      if_false, if_true]

end Paths

/-! ## Keywords and blanks -/

/-- The first keyword, the semicolon and the blanks around them go. -/
theorem body_eq_trimBoth {lead gap middle tail : List Char} (hlead : AllBlank lead)
    (hgap : AllBlank gap) (hne : gap ≠ []) (hmiddle : ';' ∉ middle) (htail : AllBlank tail) :
    body (lead ++ ("import".toList ++ (gap ++ (middle ++ ';' :: tail)))) = trimBoth middle := by
  obtain ⟨b, blanks, rfl⟩ := List.exists_cons_of_ne_nil hne
  have hb : isBlank b = true := hgap b List.mem_cons_self
  have htrim : trimBoth (lead ++ ("import".toList ++ (b :: blanks ++ (middle ++ ';' :: tail)))) =
      "import".toList ++ (b :: blanks ++ middle ++ [';']) := by
    have hleft : trimLeft ("import".toList ++ (b :: blanks ++ (middle ++ ';' :: tail))) =
        "import".toList ++ (b :: blanks ++ middle ++ [';']) ++ tail := by
      rw [trimLeft_of_head]
      · simp
      · intro c hc
        obtain rfl : 'i' = c := by simpa using hc
        decide
    have hlast : ("import".toList ++ (b :: blanks ++ middle ++ [';'])).getLast? = some ';' := by
      rw [← List.append_assoc]
      exact List.getLast?_concat
    rw [trimBoth, trimLeft_append hlead, hleft, trimRight,
      dropEndWhile_append ⟨';', hlast, by decide⟩, dropEndWhile_of_forall htail, List.append_nil]
  have hkeyword : ¬ "import".toList <+: b :: blanks ++ middle ++ [';'] := by
    rintro ⟨rest, hrest⟩
    obtain ⟨rfl, -⟩ : 'i' = b ∧ _ := by simpa using hrest
    exact absurd hb (by decide)
  have hend : dropEndWhile (· = ';') (b :: blanks ++ middle ++ [';']) = b :: blanks ++ middle := by
    have hlast : ∃ c ∈ (b :: blanks ++ middle).getLast?, decide (c = ';') = false := by
      obtain ⟨c, hc⟩ := Option.isSome_iff_exists.1
        (List.getLast?_isSome.2 (List.cons_ne_nil b (blanks ++ middle)))
      refine ⟨c, hc, decide_eq_false ?_⟩
      rintro rfl
      have hmem : ';' ∈ b :: blanks ++ middle := List.mem_of_getLast? hc
      rcases List.mem_append.1 hmem with hmem | hmem
      · exact absurd (hgap _ hmem) (by decide)
      · exact hmiddle hmem
    rw [dropEndWhile_append hlast, dropEndWhile_of_forall (by simp), List.append_nil]
  rw [body, htrim, dropAllLeads_append (by decide) hkeyword, hend, trimBoth, trimLeft_append hgap]
  rfl

/-! ## Parts of a form -/

theorem mem_of_mem_intersperse {sep x : List Char} {l : List (List Char)}
    (h : x ∈ l.intersperse sep) : x = sep ∨ x ∈ l := by
  induction l with
  | nil => simp at h
  | cons y l ih =>
    cases l with
    | nil => exact .inr (by simpa using h)
    | cons z l =>
      rw [List.intersperse_cons_cons, List.mem_cons, List.mem_cons] at h
      obtain rfl | rfl | h := h
      · exact .inr List.mem_cons_self
      · exact .inl rfl
      · exact (ih h).imp_right (List.mem_cons_of_mem y)

namespace ImportForm

theorem plain_of_mem_parts {form : ImportForm} {part : List Char} (h : part ∈ form.parts) :
    part ≠ [] ∧ ∀ c ∈ part, isBlank c = false ∧ c ≠ ';' := by
  have hname : ∀ q : DottedName, part ∈ q.parts →
      part ≠ [] ∧ ∀ c ∈ part, isBlank c = false ∧ c ≠ ';' := by
    intro q hq
    obtain ⟨hne, hplain⟩ := q.plain_of_mem_parts hq
    refine ⟨hne, fun c hc => ⟨(hplain c hc).1, ?_⟩⟩
    rintro rfl
    exact (hplain _ hc).2 (by decide)
  cases form with
  | single q => exact hname q h
  | member q m =>
    rcases List.mem_append.1 h with h | h
    · exact hname q h
    · refine hname ⟨[], m⟩ (by simpa [DottedName.parts] using h)
  | all isStatic q =>
    rcases List.mem_append.1 h with h | h
    · exact hname q h
    · rw [List.mem_singleton.1 h]
      exact ⟨by decide, forall_mem_of_all (by decide)⟩

theorem plain_of_mem_tokens {form : ImportForm} {token : List Char}
    (h : token ∈ form.parts.intersperse ['.']) : ∀ c ∈ token, isBlank c = false ∧ c ≠ ';' := by
  rcases mem_of_mem_intersperse h with rfl | h
  · exact forall_mem_of_all (by decide)
  · exact (plain_of_mem_parts h).2

/-- The path of a form is all that a text holds besides blanks. -/
theorem filter_of_spaced {form : ImportForm} {text : List Char}
    (h : Spaced (form.parts.intersperse ['.']) text) :
    text.filter (fun c => !isBlank c) = dotted form.parts :=
  h.filter fun _ htoken c hc => (plain_of_mem_tokens htoken c hc).1

/-- What is imported has no semicolon in it, so the one at the end is found. -/
theorem semicolon_not_mem {form : ImportForm} {text : List Char}
    (h : Spaced (form.parts.intersperse ['.']) text) : ';' ∉ text := by
  intro hmem
  obtain hblank | ⟨token, htoken, hc⟩ := h.mem hmem
  · exact absurd hblank (by decide)
  · exact (plain_of_mem_tokens htoken _ hc).2 rfl

theorem dotted_all (isStatic : Bool) (q : DottedName) :
    dotted (all isStatic q).parts = q.chars ++ ['.', '*'] :=
  dotted_concat q.parts_ne_nil ['*']

/-- A member import is read like a name with one more identifier. -/
theorem dotted_member (q : DottedName) (m : Identifier) :
    dotted (member q m).parts = DottedName.chars ⟨q.owners ++ [q.last], m⟩ ∧
      DottedName.ownerChars ⟨q.owners ++ [q.last], m⟩ = q.chars := by
  simp [parts, DottedName.chars, DottedName.parts, DottedName.ownerChars]

end ImportForm

/-! ## The keyword of static imports -/

/-- A word without a dot starts a dotted text only if it starts its first part. -/
theorem prefix_of_prefix_append {w part rest : List Char} (hw : '.' ∉ w)
    (hrest : ∀ c ∈ rest.head?, c = '.') (h : w <+: part ++ rest) : w <+: part := by
  obtain ⟨e, he⟩ := h
  obtain ⟨u, rfl, -⟩ | ⟨u, rfl, hu⟩ := List.append_eq_append_iff.1 he
  · exact List.prefix_append w u
  · cases u with
    | nil => simp
    | cons c u =>
      obtain rfl : c = '.' := hrest c (by simp [hu])
      simp at hw

/-- A word without dots at the start of an import is at the start of its origin. -/
theorem ImportForm.prefix_origin {form : ImportForm} (hform : form.isStatic = false) {w : List Char}
    (hw : '.' ∉ w) (h : w <+: dotted form.parts) : w <+: form.origin.chars := by
  cases form with
  | single q => exact h
  | member q m => cases hform
  | all isStatic q =>
    rw [dotted_all] at h
    exact prefix_of_prefix_append hw (by simp) h

theorem DottedName.exists_first (q : DottedName) : ∃ part rest, q.parts = part :: rest ∧
    ∀ w : List Char, '.' ∉ w → w <+: q.chars → w <+: part := by
  obtain ⟨part, rest, hparts⟩ := List.exists_cons_of_ne_nil q.parts_ne_nil
  refine ⟨part, rest, hparts, fun w hw h => ?_⟩
  rw [chars, hparts, dotted_cons] at h
  exact prefix_of_prefix_append hw (by cases rest <;> simp) h

theorem ImportForm.exists_first (form : ImportForm) : ∃ part rest, form.parts = part :: rest ∧
    ∀ w : List Char, '.' ∉ w → w <+: form.origin.chars → w <+: part := by
  obtain ⟨part, rest, hparts, hfirst⟩ := form.origin.exists_first
  cases form with
  | single q => exact ⟨part, rest, hparts, hfirst⟩
  | member q m => exact ⟨part, rest ++ [m.chars], congrArg (· ++ [m.chars]) hparts, hfirst⟩
  | all isStatic q => exact ⟨part, rest ++ [['*']], congrArg (· ++ [['*']]) hparts, hfirst⟩

/-- A token in front of others stays at the start when the blanks around go. -/
theorem Spaced.prefix_trimBoth {token text : List Char} {tokens : List (List Char)}
    (h : Spaced (token :: tokens) text) (hne : token ≠ [])
    (hplain : ∀ c ∈ token, isBlank c = false) : token <+: trimBoth text := by
  cases h with
  | @cons gap token text tokens hgap h =>
    have hleft : trimLeft (token ++ text) = token ++ text := by
      apply trimLeft_of_head
      obtain ⟨c, token, rfl⟩ := List.exists_cons_of_ne_nil hne
      simpa using hplain c List.mem_cons_self
    have hlast : ∃ c ∈ token.getLast?, isBlank c = false := by
      obtain ⟨c, hc⟩ := Option.isSome_iff_exists.1 (List.getLast?_isSome.2 hne)
      exact ⟨c, hc, hplain c (List.mem_of_getLast? hc)⟩
    rw [trimBoth, trimLeft_append hgap, hleft, trimRight, dropEndWhile_append hlast]
    exact List.prefix_append _ _

/-- A written name starts as its first identifier does. -/
theorem ImportForm.prefix_trimBoth {form : ImportForm} {text w : List Char} (hw : '.' ∉ w)
    (htext : Spaced (form.parts.intersperse ['.']) text) (h : w <+: form.origin.chars) :
    w <+: trimBoth text := by
  obtain ⟨part, rest, hparts, hfirst⟩ := form.exists_first
  have hmem : part ∈ form.parts := by simp [hparts]
  obtain ⟨hne, hplain⟩ := plain_of_mem_parts hmem
  have hpart : part <+: trimBoth text := by
    rw [hparts] at htext
    cases rest with
    | nil => exact htext.prefix_trimBoth hne fun c hc => (hplain c hc).1
    | cons next rest =>
      rw [List.intersperse_cons_cons] at htext
      exact htext.prefix_trimBoth hne fun c hc => (hplain c hc).1
  exact (hfirst w hw h).trans hpart

/-- Behind the keyword of static imports the rest is the path. -/
theorem path_of_static {text middle : List Char} (hbody : body text = trimBoth middle)
    (h : "static".toList <+: trimBoth middle) :
    (afterLead? "static".toList (body text)).isSome = true ∧
      "static".toList ++ path text = middle.filter fun c => !isBlank c := by
  obtain ⟨rest, hrest⟩ := h
  have hkeyword : "static".toList.filter (fun c => !isBlank c) = "static".toList := by decide
  rw [path, hbody, ← filter_trimBoth middle, ← hrest, afterLead?_append, List.filter_append,
    hkeyword]
  exact ⟨rfl, rfl⟩

/-- Without the word for static imports, the path is all that is left. -/
theorem path_of_plain {text middle : List Char} (hbody : body text = trimBoth middle)
    (h : ¬ "static".toList <+: trimBoth middle) :
    (afterLead? "static".toList (body text)).isSome = false ∧
      path text = middle.filter fun c => !isBlank c := by
  rw [path, hbody, afterLead?_eq_none_iff.2 h]
  exact ⟨rfl, filter_trimBoth middle⟩

/-- The import as it stands. -/
def ImportForm.decl (form : ImportForm) (line : Nat) : ImportDecl :=
  ⟨String.ofList form.origin.chars, [⟨String.ofList form.symbol, none⟩], line⟩

/-- A plain import of a name that has lost the letters of `static`, so that `q` is left. -/
def ImportForm.shortened (q : DottedName) (line : Nat) : ImportForm → ImportDecl
  | single _ => ⟨String.ofList q.ownerChars, [⟨String.ofList q.last.chars, none⟩], line⟩
  | member _ m => ⟨String.ofList q.chars, [⟨String.ofList m.chars, none⟩], line⟩
  | all _ _ => ⟨String.ofList q.chars, [⟨"*", none⟩], line⟩

section Declarations

variable {form : ImportForm} {text : List Char}

/-- An import is read as it is written, unless its origin starts with the word for static imports.
-/
theorem readImport?_of_written (h : form.Written text)
    (hname : form.isStatic = true ∨ ¬ "static".toList <+: form.origin.chars) (line : Nat) :
    readImport? text line = some (form.decl line) := by
  cases h with
  | @plain lead gap middle tail hform hlead hgap hne htext htail =>
    have hbody := body_eq_trimBoth hlead hgap hne (ImportForm.semicolon_not_mem htext) htail
    -- letters of the keyword at the start would be letters of the name
    have hkeyword : ¬ "static".toList <+: trimBoth middle := by
      intro hkeyword
      obtain ⟨-, hpath⟩ := path_of_static hbody hkeyword
      rw [ImportForm.filter_of_spaced htext] at hpath
      refine hname.resolve_left (by simp [hform]) (ImportForm.prefix_origin hform (by decide) ?_)
      exact ⟨_, hpath⟩
    obtain ⟨hplain, hpath⟩ := path_of_plain hbody hkeyword
    rw [ImportForm.filter_of_spaced htext] at hpath
    cases form with
    | single q => exact readImport?_single hplain hpath line
    | member q m => cases hform
    | all isStatic q =>
      rw [ImportForm.dotted_all] at hpath
      exact readImport?_all hpath line
  | @static lead gap gap' middle tail hform hlead hgap hne hgap' hne' htext htail =>
    -- the keyword is a token in front of the name, so it is found and taken away
    have hspaced := htext.append_left hgap'
    have hsemicolon : ';' ∉ "static".toList ++ (gap' ++ middle) :=
      List.not_mem_append (by decide) (ImportForm.semicolon_not_mem hspaced)
    have hbody := body_eq_trimBoth hlead hgap hne hsemicolon htail
    have hkeyword : "static".toList <+: trimBoth ("static".toList ++ (gap' ++ middle)) :=
      (Spaced.cons (List.forall_mem_nil _) hspaced).prefix_trimBoth (by decide)
        (forall_mem_of_all (by decide))
    obtain ⟨hstatic, hpath⟩ := path_of_static hbody hkeyword
    rw [List.filter_append, ImportForm.filter_of_spaced hspaced] at hpath
    replace hpath := List.append_cancel_left hpath
    cases form with
    | single q => cases hform
    | member q m =>
      obtain ⟨hchars, howner⟩ := ImportForm.dotted_member q m
      rw [hchars] at hpath
      rw [readImport?_static hstatic hpath, howner]
      rfl
    | all isStatic q =>
      rw [ImportForm.dotted_all] at hpath
      exact readImport?_all hpath line

/-- A plain import loses the letters of `static` at the start of its name. -/
theorem path_of_keyword (h : form.Written text) (hform : form.isStatic = false)
    (hname : "static".toList <+: form.origin.chars) :
    (afterLead? "static".toList (body text)).isSome = true ∧
      "static".toList ++ path text = dotted form.parts := by
  cases h with
  | plain _ hlead hgap hne htext htail =>
    have hbody := body_eq_trimBoth hlead hgap hne (ImportForm.semicolon_not_mem htext) htail
    rw [← ImportForm.filter_of_spaced htext]
    exact path_of_static hbody (ImportForm.prefix_trimBoth (by decide) htext hname)
  | static hstatic => simp [hstatic] at hform

/-- Where the origin starts with this word, the word is taken off, and the rest is read as a static
import. -/
theorem readImport?_of_shortened (h : form.Written text) (hform : form.isStatic = false)
    {q : DottedName} (hq : form.origin.chars = "static".toList ++ q.chars) (line : Nat) :
    readImport? text line = some (form.shortened q line) := by
  obtain ⟨hstatic, hpath⟩ := path_of_keyword h hform ⟨q.chars, hq.symm⟩
  cases form with
  | single p => exact readImport?_static hstatic (List.append_cancel_left (hpath.trans hq)) line
  | member p m => cases hform
  | all isStatic p =>
    have hchars : p.chars = "static".toList ++ q.chars := hq
    rw [ImportForm.dotted_all, hchars, List.append_assoc] at hpath
    exact readImport?_all (List.append_cancel_left hpath) line

/-- The origin of an import is a part of its path. -/
theorem length_origin_le {line : Nat} {d : ImportDecl} (h : readImport? text line = some d) :
    d.origin.toList.length ≤ (path text).length := by
  by_cases hnil : path text = []
  · simp only [readImport?, body_eq, path_eq, hnil, if_true, reduceCtorEq] at h
  cases htail : beforeTail? ['.', '*'] (path text) with
  | some package =>
    simp only [readImport?, body_eq, path_eq, hnil, htail, if_false] at h
    obtain rfl := Option.some.inj h
    simp [beforeTail?_eq_some htail]
  | none =>
    cases hstatic : (afterLead? "static".toList (body text)).isSome with
    | true =>
      cases hcut : cutLast? ['.'] (path text) with
      | none =>
        simp only [readImport?, body_eq, path_eq, hnil, htail, hstatic, hcut, if_false,
          if_true] at h
        obtain rfl := Option.some.inj h
        simp
      | some cut =>
        simp only [readImport?, body_eq, path_eq, hnil, htail, hstatic, hcut, if_false,
          if_true] at h
        obtain rfl := Option.some.inj h
        simpa using length_le_of_cutLast? hcut
    | false =>
      simp only [readImport?, body_eq, path_eq, hnil, htail, hstatic, Bool.false_eq_true,
        if_false] at h
      obtain rfl := Option.some.inj h
      simp

/-- An import whose origin starts with this word is never read as it is written. -/
theorem readImport?_ne_of_keyword (h : form.Written text) (hform : form.isStatic = false)
    (hname : "static".toList <+: form.origin.chars) (line : Nat) :
    readImport? text line ≠ some (form.decl line) := by
  intro hread
  have hle := length_origin_le hread
  obtain ⟨-, hpath⟩ := path_of_keyword h hform hname
  have hlength : (dotted form.parts).length ≤ form.origin.chars.length + 2 := by
    cases form with
    | single q => exact Nat.le_add_right _ 2
    | member q m => cases hform
    | all isStatic q => simp [ImportForm.dotted_all, ImportForm.origin]
  rw [← hpath] at hlength
  simp [ImportForm.decl] at hle hlength
  omega

end Declarations

/-- Whatever the blanks around its words and signs, an import is read as it stands, unless it is a
plain one whose name starts with the letters of `static`: these are taken for the keyword. -/
theorem imports_of_written (src : SourceText) (t : Tree) (hkind : t.kind = "import_declaration")
    {form : ImportForm} (h : form.Written (src.text t).toList) :
    (imports src t = [form.decl (src.startLine t)] ↔
      (form.isStatic = true ∨ ¬ "static".toList <+: form.origin.chars)) ∧
    (form.isStatic = false → ∀ q : DottedName, form.origin.chars = "static".toList ++ q.chars →
      imports src t = [form.shortened q (src.startLine t)]) := by
  have himports : imports src t = (readImport? (src.text t).toList (src.startLine t)).toList := by
    rw [imports, if_pos hkind]
  rw [himports]
  refine ⟨⟨fun hread => ?_, fun hname => ?_⟩, fun hform q hq => ?_⟩
  · by_contra hname
    rw [not_or, not_not, Bool.not_eq_true] at hname
    exact readImport?_ne_of_keyword h hname.1 hname.2 _ (Option.toList_eq_singleton_iff.1 hread)
  · rw [readImport?_of_written h hname]
    rfl
  · rw [readImport?_of_shortened h hform hq]
    rfl

/-- A declaration that is a whole source text of this length. -/
def declaration (length : Nat) : Tree :=
  CodeGraph.part "import_declaration" none 0 length []

/-- All static members of `a.B`. -/
def allOfB : ImportForm :=
  .all true ⟨[.ofChars ['a'] (by decide) (by decide)], .ofChars ['B'] (by decide) (by decide)⟩

def allOfBSource : SourceText :=
  ⟨"import static\n  a . B.* ;".toUTF8⟩

theorem allOfB_written : allOfB.Written (allOfBSource.text (declaration 25)).toList := by
  have htext : (allOfBSource.text (declaration 25)).toList =
      [] ++ ("import".toList ++ ([' '] ++ ("static".toList ++ (['\n', ' '] ++
        [' ', 'a', ' ', '.', ' ', 'B', '.', '*', ' ']) ++ [';']))) := by
    decide +kernel
  have hname : Spaced (allOfB.parts.intersperse ['.'])
      [' ', 'a', ' ', '.', ' ', 'B', '.', '*', ' '] := by
    refine @Spaced.cons [' '] ['a'] _ _ (by decide) ?_
    refine @Spaced.cons [' '] ['.'] _ _ (by decide) ?_
    refine @Spaced.cons [' '] ['B'] _ _ (by decide) ?_
    refine @Spaced.cons [] ['.'] _ _ (by decide) ?_
    refine @Spaced.cons [] ['*'] _ _ (by decide) ?_
    exact .nil (by decide)
  rw [htext]
  exact .static rfl (by decide) (by decide) (by decide) (by decide) (by decide) hname (by decide)

/-- The type `staticfoo.Bar`. -/
def staticfooBar : ImportForm :=
  .single ⟨[.ofChars "staticfoo".toList (by decide) (by decide)],
    .ofChars "Bar".toList (by decide) (by decide)⟩

/-- What is left of its name without the letters of `static`. -/
def fooBar : DottedName :=
  ⟨[.ofChars "foo".toList (by decide) (by decide)], .ofChars "Bar".toList (by decide) (by decide)⟩

def staticfooBarSource : SourceText :=
  ⟨"import staticfoo.Bar;".toUTF8⟩

theorem staticfooBar_written :
    staticfooBar.Written (staticfooBarSource.text (declaration 21)).toList := by
  have htext : (staticfooBarSource.text (declaration 21)).toList =
      [] ++ ("import".toList ++ ([' '] ++ ("staticfoo.Bar".toList ++ [';']))) := by
    decide +kernel
  have hname : Spaced (staticfooBar.parts.intersperse ['.']) "staticfoo.Bar".toList := by
    refine @Spaced.cons [] "staticfoo".toList ".Bar".toList _ (by decide) ?_
    refine @Spaced.cons [] ['.'] "Bar".toList _ (by decide) ?_
    refine @Spaced.cons [] "Bar".toList [] _ (by decide) ?_
    exact .nil (by decide)
  rw [htext]
  exact .plain rfl (by decide) (by decide) (by decide) hname (by decide)

theorem allOfB_and_staticfooBar_read :
    imports allOfBSource (declaration 25) = [allOfB.decl 1] ∧
      imports staticfooBarSource (declaration 21) = [staticfooBar.shortened fooBar 1] := by
  have hall := (imports_of_written _ (declaration 25) rfl allOfB_written).1.2 (.inl rfl)
  have hsingle := (imports_of_written _ (declaration 21) rfl staticfooBar_written).2 rfl fooBar
    (by decide)
  have hline : allOfBSource.startLine (declaration 25) = 1 ∧
      staticfooBarSource.startLine (declaration 21) = 1 := by decide +kernel
  rw [hline.1] at hall
  rw [hline.2] at hsingle
  exact ⟨hall, hsingle⟩

/-- A type of the package `staticfoo` is taken for a static member of `foo`. -/
theorem staticfooBar_read_as_member :
    staticfooBar.decl 1 = ⟨"staticfoo.Bar", [⟨"Bar", none⟩], 1⟩ ∧
      imports staticfooBarSource (declaration 21) = [⟨"foo", [⟨"Bar", none⟩], 1⟩] := by
  decide +kernel

end CodeImpact.Grammar.Java

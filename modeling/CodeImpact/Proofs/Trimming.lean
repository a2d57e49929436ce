import CodeImpact.Proofs.Text
import Mathlib.Data.List.TakeWhile

/-!
# Laws of trimming

What is taken away at an end of a text stops at the first character that has to stay, so a text in
front of such a character is kept whole. A text whose blanks are single spaces between other
characters is kept when its blanks are collapsed.
-/

namespace CodeImpact.Text

/-- What holds of each character of a text can be checked by going through the text. -/
theorem forall_mem_of_all {P : Char → Prop} [DecidablePred P] {s : List Char}
    (h : s.all (fun c => decide (P c)) = true) : ∀ c ∈ s, P c := by
  simpa using h

/-! ## Ends -/

/-- Dropping from the end stops at a character that stays. -/
theorem dropEndWhile_append {p : Char → Bool} {s : List Char}
    (h : ∃ c ∈ s.getLast?, p c = false) (r : List Char) :
    dropEndWhile p (s ++ r) = s ++ dropEndWhile p r := by
  obtain ⟨c, hlast, hc⟩ := h
  obtain ⟨s, rfl⟩ := List.getLast?_eq_some_iff.1 hlast
  have hstop : (c :: s.reverse).dropWhile p = c :: s.reverse := by simp [hc]
  simp only [dropEndWhile, List.reverse_append, List.reverse_singleton, List.singleton_append]
  rw [List.dropWhile_append]
  split
  next hempty => simp_all
  next => simp

theorem dropEndWhile_of_forall {p : Char → Bool} {s : List Char} (h : ∀ c ∈ s, p c = true) :
    dropEndWhile p s = [] := by
  simpa [dropEndWhile] using h

theorem prefix_dropEndWhile (p : Char → Bool) (s : List Char) : dropEndWhile p s <+: s := by
  rw [← List.reverse_suffix, dropEndWhile, List.reverse_reverse]
  exact List.dropWhile_suffix p

theorem trimLeft_of_head {s : List Char} (h : ∀ c ∈ s.head?, isBlank c = false) :
    trimLeft s = s := by
  cases s with
  | nil => rfl
  | cons c rest => simp [trimLeft, h c rfl]

theorem trimLeft_append {gap : List Char} (hgap : ∀ c ∈ gap, isBlank c = true) (s : List Char) :
    trimLeft (gap ++ s) = trimLeft s :=
  List.dropWhile_append_of_pos hgap

theorem filter_trimBoth (s : List Char) :
    (trimBoth s).filter (fun c => !isBlank c) = s.filter (fun c => !isBlank c) := by
  have hdrop : ∀ s : List Char, (s.dropWhile isBlank).filter (fun c => !isBlank c) =
      s.filter (fun c => !isBlank c) := by
    intro s
    induction s with
    | nil => rfl
    | cons c s ih => cases hc : isBlank c <;> simp [hc, ih]
  rw [trimBoth, trimRight, dropEndWhile, List.filter_reverse, hdrop, List.filter_reverse,
    List.reverse_reverse, trimLeft, hdrop]

theorem afterLast_of_forall {p : Char → Bool} {s : List Char} (h : ∀ c ∈ s, p c = false) :
    afterLast p s = s := by
  have hwhole : s.reverse.takeWhile (fun c => !p c) = s.reverse := by
    refine List.takeWhile_eq_self_iff.2 fun c hc => ?_
    rw [h c (List.mem_reverse.1 hc), Bool.not_false]
  rw [afterLast, hwhole, List.reverse_reverse]

theorem length_le_of_cutLast? {sep s : List Char} {cut : List Char × List Char}
    (h : cutLast? sep s = some cut) : cut.1.length ≤ s.length := by
  rw [cutLast?, Option.map_eq_some_iff] at h
  obtain ⟨⟨after, before⟩, hcut, rfl⟩ := h
  have hlength := congrArg List.length (cut?_eq_some hcut)
  simp only [List.length_reverse, List.length_append] at hlength ⊢
  omega

/-- One lead is taken off where there is only one. -/
theorem dropAllLeads_append {lead s : List Char} (hlead : lead ≠ []) (h : ¬ lead <+: s) :
    dropAllLeads lead (lead ++ s) = s := by
  obtain ⟨c, rest, rfl⟩ := List.exists_cons_of_ne_nil hlead
  rw [dropAllLeads, if_neg (by simp), List.cons_append, List.length_cons, dropLeads,
    ← List.cons_append, afterLead?_append]
  exact dropLeads_of_none (afterLead?_eq_none_iff.2 h) _

/-- A beginning that has no character of the taken one at its start is kept. -/
theorem dropLeads_append {lead s : List Char} (h : ∃ c ∈ s.head?, c ∉ lead) (n : Nat)
    (r : List Char) : ∃ r', r' <:+ r ∧ dropLeads lead n (r ++ s) = r' ++ s := by
  induction n generalizing r with
  | zero => exact ⟨r, List.suffix_rfl, rfl⟩
  | succ n ih =>
    rw [dropLeads]
    cases hlead : afterLead? lead (r ++ s) with
    | none => exact ⟨r, List.suffix_rfl, rfl⟩
    | some rest =>
      obtain ⟨w, rfl, hs⟩ | ⟨w, rfl, rfl⟩ := List.append_eq_append_iff.1 (afterLead?_eq_some hlead)
      · -- the taken text ends inside `s`, so it has none of it
        obtain ⟨c, hc, hnot⟩ := h
        cases w with
        | nil =>
          obtain rfl : s = rest := by simpa using hs
          obtain ⟨r', hsuffix, hdrop⟩ := ih []
          exact ⟨r', hsuffix.trans (List.nil_suffix), by simpa using hdrop⟩
        | cons d w =>
          obtain rfl : d = c := by simpa [hs] using hc
          simp at hnot
      · obtain ⟨r', hsuffix, hdrop⟩ := ih w
        exact ⟨r', hsuffix.trans (List.suffix_append _ _), hdrop⟩

/-- Tails are taken off what follows a text that ends in another character, and the text stays. -/
theorem dropAllTails_append {tail s : List Char} (h : ∃ c ∈ s.getLast?, c ∉ tail)
    (r : List Char) : ∃ r', r' <+: r ∧ dropAllTails tail (s ++ r) = s ++ r' := by
  unfold dropAllTails dropAllLeads
  split
  · exact ⟨r, List.prefix_rfl, by simp⟩
  · have hhead : ∃ c ∈ s.reverse.head?, c ∉ tail.reverse := by simpa using h
    obtain ⟨r', hsuffix, hdrop⟩ := dropLeads_append hhead (s ++ r).reverse.length r.reverse
    refine ⟨r'.reverse, ?_, ?_⟩
    · rwa [← List.reverse_suffix, List.reverse_reverse]
    · rw [List.reverse_append] at hdrop ⊢
      rw [hdrop, List.reverse_append, List.reverse_reverse]

theorem dropAllTails_append_tail {tail s : List Char} (htail : tail ≠ []) (h : ¬ tail <:+ s) :
    dropAllTails tail (s ++ tail) = s := by
  have hreverse : ¬ tail.reverse <+: s.reverse := by rwa [ List.reverse_prefix]
  rw [dropAllTails, List.reverse_append, dropAllLeads_append (by simpa using htail) hreverse,
    List.reverse_reverse]

/-! ## Collapsed blanks -/

/-- Every blank is a space in front of another character. -/
def Tidy : List Char → Prop
  | [] => True
  | c :: rest => (isBlank c = true → c = ' ' ∧ ∃ d ∈ rest.head?, isBlank d = false) ∧ Tidy rest

theorem Tidy.append {s r : List Char} (hs : Tidy s) (hr : Tidy r) : Tidy (s ++ r) := by
  induction s with
  | nil => exact hr
  | cons c s ih =>
    refine ⟨fun hc => ?_, ih hs.2⟩
    obtain ⟨hspace, d, hd, hblank⟩ := hs.1 hc
    exact ⟨hspace, d, by cases s <;> simp_all, hblank⟩

theorem tidy_of_forall {s : List Char} (h : ∀ c ∈ s, isBlank c = false) : Tidy s := by
  induction s with
  | nil => trivial
  | cons c s ih =>
    obtain ⟨hc, hs⟩ := List.forall_mem_cons.1 h
    exact ⟨fun hblank => by simp [hc] at hblank, ih hs⟩

theorem Tidy.space {s : List Char} (hs : Tidy s) (h : ∃ d ∈ s.head?, isBlank d = false) :
    Tidy (' ' :: s) :=
  ⟨fun _ => ⟨rfl, h⟩, hs⟩

/-- The words of a text that starts with one. -/
theorem words_cons {c : Char} (hc : isBlank c = false) (s : List Char) :
    ∃ w ws, words (c :: s) = (c :: w) :: ws ∧
      ((∃ d ∈ s.head?, isBlank d = false) → words s = w :: ws) := by
  have hsplit : (c :: s).splitOnP isBlank = (s.splitOnP isBlank).modifyHead (c :: ·) := by
    rw [List.splitOnP_cons_eq_if_modifyHead, hc, if_neg Bool.false_ne_true]
  cases hpieces : s.splitOnP isBlank with
  | nil => exact absurd hpieces (List.splitOnP_ne_nil _ _)
  | cons w ws =>
    refine ⟨w, ws.filter (fun w => !w.isEmpty), by simp [words, hsplit, hpieces], ?_⟩
    rintro ⟨d, hd, hblank⟩
    obtain ⟨s, rfl⟩ : ∃ rest, s = d :: rest := by cases s <;> simp_all
    have hw : w ≠ [] := by
      rintro rfl
      rw [List.splitOnP_cons_eq_if_modifyHead, hblank, if_neg Bool.false_ne_true] at hpieces
      cases hrest : s.splitOnP isBlank <;> simp [hrest] at hpieces
    simp [words, hpieces, hw]

theorem collapseBlanks_cons_cons {c d : Char} (hc : isBlank c = false) (hd : isBlank d = false)
    (s : List Char) : collapseBlanks (c :: d :: s) = c :: collapseBlanks (d :: s) := by
  obtain ⟨w, ws, hwords, hrest⟩ := words_cons hc (d :: s)
  rw [collapseBlanks, collapseBlanks, hwords, hrest ⟨d, rfl, hd⟩, intercalate_cons_eq,
    intercalate_cons_eq, List.cons_append]

theorem collapseBlanks_cons_space {c d : Char} (hc : isBlank c = false) (hd : isBlank d = false)
    (s : List Char) :
    collapseBlanks (c :: ' ' :: d :: s) = c :: ' ' :: collapseBlanks (d :: s) := by
  have hfirst : words (c :: ' ' :: d :: s) = [c] :: words (d :: s) := by
    have hspace : isBlank ' ' = true := rfl
    simp [words, List.splitOnP_cons_eq_if_modifyHead, hc, hspace]
  obtain ⟨w, ws, hwords, -⟩ := words_cons hd s
  rw [collapseBlanks, collapseBlanks, hfirst, hwords, List.intercalate_cons_cons]
  rfl

/-- A tidy text stays as it is in front of others. -/
theorem collapseBlanks_cons_append {c : Char} (hc : isBlank c = false) {s : List Char} (hs : Tidy s)
    (r : List Char) : ∃ r', collapseBlanks (c :: (s ++ r)) = c :: (s ++ r') := by
  induction s generalizing c with
  | nil =>
    obtain ⟨w, ws, hwords, -⟩ := words_cons hc r
    exact ⟨w ++ ws.flatMap ([' '] ++ ·), by simp [collapseBlanks, hwords, intercalate_cons_eq]⟩
  | cons d s ih =>
    obtain ⟨hd, hs⟩ := hs
    cases hblank : isBlank d with
    | false =>
      obtain ⟨r', hr⟩ := ih hblank hs
      exact ⟨r', by rw [List.cons_append, collapseBlanks_cons_cons hc hblank, hr, List.cons_append]⟩
    | true =>
      obtain ⟨rfl, e, he, hnext⟩ := hd hblank
      obtain ⟨s, rfl⟩ : ∃ rest, s = e :: rest := by cases s <;> simp_all
      -- the induction puts a character in front of what follows the space
      obtain ⟨r', hr⟩ := ih hc hs
      rw [List.cons_append, collapseBlanks_cons_cons hc hnext] at hr
      refine ⟨r', ?_⟩
      rw [List.cons_append, List.cons_append, collapseBlanks_cons_space hc hnext,
        List.tail_eq_of_cons_eq hr]
      rfl

/-- A tidy beginning is kept when blanks are collapsed. -/
theorem collapseBlanks_append {s : List Char} (hs : Tidy s)
    (hhead : ∃ c ∈ s.head?, isBlank c = false) (r : List Char) :
    ∃ r', collapseBlanks (s ++ r) = s ++ r' := by
  obtain ⟨c, hhead, hc⟩ := hhead
  obtain ⟨s, rfl⟩ : ∃ rest, s = c :: rest := by cases s <;> simp_all
  exact collapseBlanks_cons_append hc hs.2 r

theorem collapseBlanks_of_tidy {s : List Char} (hs : Tidy s)
    (hhead : ∃ c ∈ s.head?, isBlank c = false) : collapseBlanks s = s := by
  obtain ⟨r, hr⟩ := collapseBlanks_append hs hhead []
  have hlength := length_collapseBlanks_le s
  rw [List.append_nil] at hr
  rw [hr, List.length_append] at hlength
  obtain rfl : r = [] := List.eq_nil_of_length_eq_zero (by omega)
  rw [hr, List.append_nil]

theorem subset_of_mem_splitOnP {p : Char → Bool} {s w : List Char} (h : w ∈ s.splitOnP p) :
    w ⊆ s := by
  induction s generalizing w with
  | nil => simp_all
  | cons c s ih =>
    rw [List.splitOnP_cons_eq_if_modifyHead] at h
    split at h
    · rcases List.mem_cons.1 h with rfl | h
      · exact List.nil_subset _
      · exact List.subset_cons_of_subset c (ih h)
    · cases hpieces : s.splitOnP p with
      | nil => simp [hpieces] at h
      | cons first others =>
        rw [hpieces, List.modifyHead_cons] at h
        rw [hpieces] at ih
        rcases List.mem_cons.1 h with rfl | h
        · exact List.cons_subset_cons c (ih List.mem_cons_self)
        · exact List.subset_cons_of_subset c (ih (List.mem_cons_of_mem _ h))

/-- Collapsing adds nothing but spaces. -/
theorem mem_collapseBlanks {c : Char} {s : List Char} (h : c ∈ collapseBlanks s) :
    c = ' ' ∨ c ∈ s := by
  have hword : ∀ w ∈ words s, w ⊆ s := fun w hw =>
    subset_of_mem_splitOnP (List.mem_filter.1 hw).1
  unfold collapseBlanks at h
  cases hwords : words s with
  | nil => simp [hwords] at h
  | cons w ws =>
    rw [hwords] at h hword
    rw [intercalate_cons_eq, List.mem_append, List.mem_flatMap] at h
    obtain h | ⟨v, hv, h⟩ := h
    · exact .inr (hword w List.mem_cons_self h)
    · rcases List.mem_cons.1 h with rfl | h
      · exact .inl rfl
      · exact .inr (hword v (List.mem_cons_of_mem _ hv) h)

end CodeImpact.Text

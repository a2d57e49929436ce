import CodeImpact.Text.Affix
import CodeImpact.Text.Blank
import CodeImpact.Text.Letters
import CodeImpact.Text.Number
import Mathlib.Data.List.Induction

/-!
# Laws of text

What is cut off a text that was put together: a beginning, what follows a separator, the lines of a
text, the digits of a number.
-/

namespace CodeImpact.Text

/-! ## Beginnings -/

@[simp] theorem afterLead?_append (lead s : List Char) : afterLead? lead (lead ++ s) = some s := by
  have hlead : lead.isPrefixOf (lead ++ s) = true :=
    List.isPrefixOf_iff_prefix.2 (List.prefix_append lead s)
  rw [afterLead?, if_pos hlead, List.drop_left]

theorem afterLead?_eq_none_iff {lead s : List Char} : afterLead? lead s = none ↔ ¬ lead <+: s := by
  rw [afterLead?, ← List.isPrefixOf_iff_prefix]
  split <;> simp_all

theorem afterLead?_eq_some {lead s rest : List Char} (h : afterLead? lead s = some rest) :
    s = lead ++ rest := by
  unfold afterLead? at h
  split at h
  next hlead =>
    obtain ⟨t, rfl⟩ := List.isPrefixOf_iff_prefix.1 hlead
    rw [List.drop_left] at h
    rw [Option.some.inj h]
  next => cases h

theorem dropLeads_of_none {lead s : List Char} (h : afterLead? lead s = none) (n : Nat) :
    dropLeads lead n s = s := by
  cases n with
  | zero => rfl
  | succ n => rw [dropLeads, h]

/-- Once all beginnings are taken away, the text does not start so any more. -/
theorem afterLead?_dropLeads {lead : List Char} (hlead : lead ≠ []) {n : Nat} {s : List Char}
    (hn : s.length ≤ n) : afterLead? lead (dropLeads lead n s) = none := by
  induction n generalizing s with
  | zero =>
    obtain rfl := List.eq_nil_of_length_eq_zero (Nat.le_zero.1 hn)
    rw [dropLeads, afterLead?_eq_none_iff, List.prefix_nil]
    exact hlead
  | succ n ih =>
    rw [dropLeads]
    cases h : afterLead? lead s with
    | none => exact h
    | some rest =>
      have hlength := congrArg List.length (afterLead?_eq_some h)
      have hpos := List.length_pos_iff.2 hlead
      rw [List.length_append] at hlength
      exact ih (by omega)

theorem dropAllLeads_idem (lead s : List Char) :
    dropAllLeads lead (dropAllLeads lead s) = dropAllLeads lead s := by
  unfold dropAllLeads
  split
  · rfl
  next hlead =>
    have hne : lead ≠ [] := by simpa using hlead
    exact dropLeads_of_none (afterLead?_dropLeads hne (Nat.le_refl _)) _

/-! ## Ends -/

@[simp] theorem beforeTail?_append (s tail : List Char) : beforeTail? tail (s ++ tail) = some s := by
  have htail : tail.isSuffixOf (s ++ tail) = true :=
    List.isSuffixOf_iff_suffix.2 (List.suffix_append s tail)
  simp [beforeTail?, htail]

theorem beforeTail?_eq_some {tail s rest : List Char} (h : beforeTail? tail s = some rest) :
    s = rest ++ tail := by
  unfold beforeTail? at h
  split at h
  next htail =>
    obtain ⟨t, rfl⟩ := List.isSuffixOf_iff_suffix.1 htail
    rw [List.length_append, Nat.add_sub_cancel, List.take_left] at h
    rw [Option.some.inj h]
  next => cases h

theorem dropEndWhile_of_last {p : Char → Bool} {s : List Char} (h : ∀ c ∈ s.getLast?, p c = false) :
    dropEndWhile p s = s := by
  cases s using List.reverseRecOn with
  | nil => rfl
  | append_singleton s c =>
    have hc : p c = false := h c (by simp)
    simp [dropEndWhile, hc]

/-! ## Separators -/

theorem cut?_eq_some {sep s before after : List Char} (h : cut? sep s = some (before, after)) :
    s = before ++ (sep ++ after) := by
  induction s generalizing before with
  | nil =>
    unfold cut? at h
    split at h
    next hsep => simp_all
    next => cases h
  | cons c rest ih =>
    unfold cut? at h
    split at h
    next hlead =>
      obtain ⟨t, ht⟩ := List.isPrefixOf_iff_prefix.1 hlead
      rw [← ht, List.drop_left] at h
      obtain ⟨rfl, rfl⟩ := Prod.mk.inj (Option.some.inj h)
      exact ht.symm
    next =>
      obtain ⟨⟨b, a⟩, hcut, heq⟩ := Option.map_eq_some_iff.1 h
      obtain ⟨rfl, rfl⟩ := Prod.mk.inj heq
      rw [ih hcut, List.cons_append]

/-- A separator that occurs is found. -/
theorem cut?_ne_none (lead sep s : List Char) : cut? sep (lead ++ (sep ++ s)) ≠ none := by
  induction lead with
  | nil =>
    have hsep : sep.isPrefixOf (sep ++ s) = true :=
      List.isPrefixOf_iff_prefix.2 (List.prefix_append sep s)
    rw [List.nil_append]
    cases htext : sep ++ s with
    | nil => simp_all [cut?]
    | cons d rest =>
      rw [htext] at hsep
      simp [cut?, hsep]
  | cons d lead ih =>
    rw [List.cons_append, cut?]
    split
    · simp
    · simpa using ih

/-- A text without a character of the separator is not cut. -/
theorem cut?_of_not_mem {c : Char} {sep s : List Char} (hc : c ∈ sep) (h : c ∉ s) :
    cut? sep s = none := by
  refine Option.eq_none_iff_forall_ne_some.2 fun pieces hpieces => h ?_
  rw [cut?_eq_some hpieces]
  simp [hc]

/-- The first separator comes after a text that does not have its first character. -/
theorem cut?_append {c : Char} {lead : List Char} (h : c ∉ lead) (sep s : List Char) :
    cut? (c :: sep) (lead ++ (c :: sep ++ s)) = some (lead, s) := by
  induction lead with
  | nil =>
    have hsep : (c :: sep).isPrefixOf (c :: sep ++ s) = true :=
      List.isPrefixOf_iff_prefix.2 (List.prefix_append _ s)
    rw [List.nil_append, List.cons_append, cut?, ← List.cons_append, if_pos hsep, List.drop_left]
  | cons d lead ih =>
    obtain ⟨hd, hlead⟩ := List.ne_and_not_mem_of_not_mem_cons h
    have hsep : ¬ (c :: sep).isPrefixOf (d :: (lead ++ (c :: sep ++ s))) = true := by
      simp [List.isPrefixOf, hd]
    rw [List.cons_append, cut?, if_neg hsep, ih hlead]
    rfl

/-- No separator starts before the first one. -/
theorem length_le_of_cut? {sep lead s before after : List Char}
    (h : cut? sep (lead ++ (sep ++ s)) = some (before, after)) : before.length ≤ lead.length := by
  induction lead generalizing before with
  | nil =>
    have hsep : sep.isPrefixOf (sep ++ s) = true :=
      List.isPrefixOf_iff_prefix.2 (List.prefix_append sep s)
    rw [List.nil_append] at h
    cases htext : sep ++ s with
    | nil =>
      obtain ⟨rfl, rfl⟩ := List.append_eq_nil_iff.1 htext
      obtain ⟨rfl, -⟩ := Prod.mk.inj (Option.some.inj h)
      exact Nat.le_refl _
    | cons c rest =>
      rw [htext] at h hsep
      rw [cut?, if_pos hsep] at h
      obtain ⟨rfl, -⟩ := Prod.mk.inj (Option.some.inj h)
      exact Nat.le_refl _
  | cons c lead ih =>
    rw [List.cons_append, cut?] at h
    split at h
    · obtain ⟨rfl, -⟩ := Prod.mk.inj (Option.some.inj h)
      exact Nat.zero_le _
    · obtain ⟨⟨b, a⟩, hcut, heq⟩ := Option.map_eq_some_iff.1 h
      obtain ⟨rfl, rfl⟩ := Prod.mk.inj heq
      exact Nat.succ_le_succ (ih hcut)

/-- A text is cut at a separator if no other one starts before it. -/
theorem cut?_append_of_not_infix {sep lead : List Char} (h : ¬ sep <:+: lead ++ sep.dropLast)
    (s : List Char) : cut? sep (lead ++ (sep ++ s)) = some (lead, s) := by
  have hne : sep ≠ [] := by
    rintro rfl
    exact h (List.nil_infix)
  induction lead with
  | nil =>
    obtain ⟨c, rest, rfl⟩ := List.exists_cons_of_ne_nil hne
    exact cut?_append List.not_mem_nil rest s
  | cons c lead ih =>
    have hsep : ¬ sep.isPrefixOf (c :: (lead ++ (sep ++ s))) = true := by
      rw [List.isPrefixOf_iff_prefix]
      intro hpre
      have hlong : c :: lead ++ sep.dropLast <+: c :: (lead ++ (sep ++ s)) := by
        rw [List.cons_append, List.cons_prefix_cons, List.prefix_append_right_inj]
        exact ⟨rfl, (List.dropLast_prefix sep).trans (List.prefix_append sep s)⟩
      have hlength : sep.length ≤ (c :: lead ++ sep.dropLast).length := by
        simp only [List.length_append, List.length_cons, List.length_dropLast]
        omega
      exact h (List.prefix_of_prefix_length_le hpre hlong hlength).isInfix
    have hrest : ¬ sep <:+: lead ++ sep.dropLast := fun hinfix =>
      h (List.infix_cons_iff.2 (.inr hinfix))
    rw [List.cons_append, cut?, if_neg hsep, ih hrest]
    rfl

/-- Up to the last character of the first separator there is no other one. -/
theorem not_infix_dropLast_of_cut? {sep s before after : List Char} (hsep : sep ≠ [])
    (h : cut? sep s = some (before, after)) : ¬ sep <:+: before ++ sep.dropLast := by
  rintro ⟨lead, tail, hbefore⟩
  have hs : s = lead ++ (sep ++ (tail ++ sep.getLast hsep :: after)) := by
    calc s = before ++ (sep.dropLast ++ [sep.getLast hsep]) ++ after := by
          rw [List.dropLast_concat_getLast hsep, cut?_eq_some h, List.append_assoc]
      _ = before ++ sep.dropLast ++ sep.getLast hsep :: after := by simp
      _ = lead ++ (sep ++ (tail ++ sep.getLast hsep :: after)) := by
          rw [← hbefore]
          simp
  rw [hs] at h
  have hlength := length_le_of_cut? h
  have hpos := List.length_pos_iff.2 hsep
  have htotal := congrArg List.length hbefore
  simp only [List.length_append, List.length_dropLast] at htotal
  omega

/-- There is no separator before the first one. -/
theorem not_infix_of_cut? {sep s before after : List Char} (hsep : sep ≠ [])
    (h : cut? sep s = some (before, after)) : ¬ sep <:+: before := fun hinside =>
  not_infix_dropLast_of_cut? hsep h (hinside.trans (List.prefix_append _ _).isInfix)

theorem intercalate_cons_eq (sep s : List Char) (rest : List (List Char)) :
    sep.intercalate (s :: rest) = s ++ rest.flatMap (sep ++ ·) := by
  induction rest generalizing s with
  | nil => simp
  | cons t rest ih =>
    rw [List.intercalate_cons_cons, ih, List.flatMap_cons, List.append_assoc, List.append_assoc]

/-- Nonempty pieces without the separator's character are told from any other pieces that do not
hold the separator itself. -/
theorem eq_of_append_flatMap_eq {c : Char} {s t : List Char} {ss ts : List (List Char)}
    (hs : ¬ [c, c] <:+: s) (hss : ∀ x ∈ ss, ¬ [c, c] <:+: x) (ht : c ∉ t)
    (hts : ∀ x ∈ ts, x ≠ [] ∧ c ∉ x)
    (h : s ++ ss.flatMap ([c, c] ++ ·) = t ++ ts.flatMap ([c, c] ++ ·)) : s = t ∧ ss = ts := by
  induction ts generalizing s t ss with
  | nil =>
    rw [List.flatMap_nil, List.append_nil] at h
    cases ss with
    | nil => simpa using h
    | cons x ss => exact absurd (by simp [← h]) ht
  | cons y ts ih =>
    obtain ⟨⟨hne, hy⟩, hts⟩ := List.forall_mem_cons.1 hts
    by_cases hst : s = t
    · subst hst
      have hrest := List.append_cancel_left h
      cases ss with
      | nil => simp at hrest
      | cons x ss =>
        obtain ⟨hx, hss⟩ := List.forall_mem_cons.1 hss
        have hpieces : x ++ ss.flatMap ([c, c] ++ ·) = y ++ ts.flatMap ([c, c] ++ ·) := by
          simpa using hrest
        obtain ⟨rfl, rfl⟩ := ih hx hss hy hts hpieces
        exact ⟨rfl, rfl⟩
    · exfalso
      obtain ⟨u, rfl, hrest⟩ | ⟨u, rfl, hrest⟩ := List.append_eq_append_iff.1 h
      · -- the other piece is longer, so it goes on with a separator
        obtain ⟨d, u, rfl⟩ := List.exists_cons_of_ne_nil (fun hu : u = [] => hst (by simp [hu]))
        cases ss with
        | nil => simp at hrest
        | cons x ss =>
          obtain ⟨rfl, -⟩ : c = d ∧ _ := by simpa using hrest
          simp at ht
      · -- this piece is longer: it holds a separator, or the next other piece starts with one
        obtain ⟨d, u, rfl⟩ := List.exists_cons_of_ne_nil (fun hu : u = [] => hst (by simp [hu]))
        obtain ⟨rfl, hrest⟩ : c = d ∧ c :: (y ++ ts.flatMap ([c, c] ++ ·)) =
            u ++ ss.flatMap ([c, c] ++ ·) := by simpa using hrest
        obtain ⟨z, y, rfl⟩ := List.exists_cons_of_ne_nil hne
        cases u with
        | cons e u =>
          obtain ⟨rfl, -⟩ : c = e ∧ _ := by simpa using hrest
          exact hs ⟨t, u, by simp⟩
        | nil =>
          cases ss with
          | nil => simp at hrest
          | cons x ss =>
            obtain ⟨rfl, -⟩ : z = c ∧ _ := by simpa using hrest
            simp at hy

/-- Pieces can be told apart if no piece has a separator in it, and those on one side have no
character of it. -/
theorem eq_of_intercalate_eq {c : Char} {ss ts : List (List Char)}
    (hss : ∀ x ∈ ss, ¬ [c, c] <:+: x) (hts : ∀ x ∈ ts, x ≠ [] ∧ c ∉ x) (hne : ts ≠ [])
    (h : [c, c].intercalate ss = [c, c].intercalate ts) : ss = ts := by
  obtain ⟨t, ts, rfl⟩ := List.exists_cons_of_ne_nil hne
  obtain ⟨⟨htne, ht⟩, hts⟩ := List.forall_mem_cons.1 hts
  cases ss with
  | nil => simp [intercalate_cons_eq, htne] at h
  | cons s ss =>
    obtain ⟨hs, hss⟩ := List.forall_mem_cons.1 hss
    rw [intercalate_cons_eq, intercalate_cons_eq] at h
    obtain ⟨rfl, rfl⟩ := eq_of_append_flatMap_eq hs hss ht hts h
    rfl

/-- A separator is found again if what follows does not have its last character. -/
theorem cutLast?_append {c : Char} {s : List Char} (h : c ∉ s) (lead sep : List Char) :
    cutLast? (sep ++ [c]) (lead ++ (sep ++ [c]) ++ s) = some (lead, s) := by
  have hreverse : (lead ++ (sep ++ [c]) ++ s).reverse =
      s.reverse ++ (c :: sep.reverse ++ lead.reverse) := by simp
  rw [cutLast?, List.reverse_concat, hreverse, cut?_append (by simpa using h)]
  simp

/-- What follows the last such character has none. -/
theorem afterLast_append {p : Char → Bool} {c : Char} (hc : p c = true) {s : List Char}
    (hs : ∀ d ∈ s, p d = false) (lead : List Char) : afterLast p (lead ++ c :: s) = s := by
  have hreverse : (lead ++ c :: s).reverse = s.reverse ++ c :: lead.reverse := by simp
  rw [afterLast, hreverse, List.takeWhile_append_of_pos (by simpa using hs)]
  simp [hc]

/-- No piece holds the character that the text is split at. -/
theorem not_mem_of_mem_splitOn {c : Char} {s piece : List Char} (h : piece ∈ s.splitOn c) :
    c ∉ piece := by
  rw [List.splitOn_eq_splitOnP] at h
  induction s generalizing piece with
  | nil => simp_all
  | cons d rest ih =>
    rw [List.splitOnP_cons_eq_if_modifyHead] at h
    split at h
    next =>
      rcases List.mem_cons.1 h with rfl | h
      · exact List.not_mem_nil
      · exact ih h
    next hd =>
      cases hpieces : rest.splitOnP (· == c) with
      | nil => simp [hpieces] at h
      | cons first others =>
        rw [hpieces, List.modifyHead_cons] at h
        rw [hpieces] at ih
        rcases List.mem_cons.1 h with rfl | h
        · have hne : c ≠ d := fun heq => hd (by simp [heq])
          simpa [hne] using ih List.mem_cons_self
        · exact ih (List.mem_cons_of_mem _ h)

/-! ## Lines -/

/-- A line without the carriage return at its end. -/
def withoutReturn (line : List Char) : List Char :=
  (beforeTail? ['\r'] line).getD line

theorem withoutReturn_of_last {line : List Char} (h : line.getLast? ≠ some '\r') :
    withoutReturn line = line := by
  have hnot : ¬ ['\r'].isSuffixOf line := by
    rw [List.isSuffixOf_iff_suffix]
    rintro ⟨before, rfl⟩
    simp at h
  rw [withoutReturn, beforeTail?, if_neg hnot, Option.getD_none]

theorem withoutReturn_snoc (line : List Char) : withoutReturn (line ++ ['\r']) = line := by
  have hsuffix : ['\r'].isSuffixOf (line ++ ['\r']) = true :=
    List.isSuffixOf_iff_suffix.2 (List.suffix_append line _)
  simp [withoutReturn, beforeTail?, hsuffix]

/-- A beginning without carriage returns stays as it is. -/
theorem withoutReturn_append {lead : List Char} (h : '\r' ∉ lead) (s : List Char) :
    withoutReturn (lead ++ s) = lead ++ withoutReturn s := by
  cases s using List.reverseRecOn with
  | nil =>
    have hlead : lead.getLast? ≠ some '\r' := fun hlast => h (List.mem_of_getLast? hlast)
    rw [List.append_nil, withoutReturn_of_last hlead]
    simp [withoutReturn, beforeTail?]
  | append_singleton s c =>
    by_cases hc : c = '\r'
    · subst hc
      rw [← List.append_assoc, withoutReturn_snoc, withoutReturn_snoc]
    · have hlast : ∀ t : List Char, (t ++ [c]).getLast? ≠ some '\r' := by simp [hc]
      rw [withoutReturn_of_last (hlast s), ← List.append_assoc, withoutReturn_of_last (hlast _)]

theorem withoutReturn_cons {c : Char} (h : c ≠ '\r') (s : List Char) :
    withoutReturn (c :: s) = c :: withoutReturn s := by
  have hlead : '\r' ∉ [c] := by simpa using h.symm
  exact withoutReturn_append hlead s

theorem withoutReturn_prefix (line : List Char) : withoutReturn line <+: line := by
  unfold withoutReturn beforeTail?
  split
  · exact List.take_prefix _ _
  · exact List.prefix_rfl

/-- The text of some lines, each ended by a line feed. -/
def unlines (ls : List (List Char)) : List Char :=
  ls.flatMap (· ++ ['\n'])

theorem splitOn_unlines {ls : List (List Char)} (h : ∀ l ∈ ls, '\n' ∉ l) :
    (unlines ls).splitOn '\n' = ls ++ [[]] := by
  induction ls with
  | nil => rfl
  | cons l rest ih =>
    have hl : '\n' ∉ l := h l List.mem_cons_self
    have hrest : ∀ m ∈ rest, '\n' ∉ m := fun m hm => h m (List.mem_cons_of_mem l hm)
    have hcons : unlines (l :: rest) = l ++ '\n' :: unlines rest := by
      simp [unlines]
    rw [hcons, List.splitOn_append_cons_self_of_not_mem hl, ih hrest, List.cons_append]

/-- Lines are found again, up to carriage returns at their ends. -/
theorem lines_unlines {ls : List (List Char)} (h : ∀ l ∈ ls, '\n' ∉ l) :
    lines (unlines ls) = ls.map withoutReturn := by
  unfold lines
  rw [splitOn_unlines h]
  simp only [List.dropLast_concat, List.getLast?_append, List.getLast?_singleton, Option.some_or]
  refine List.map_congr_left fun line _ => ?_
  unfold withoutReturn
  cases beforeTail? ['\r'] line <;> rfl

/-! ## Numbers -/

theorem isDecimal_of_isDigit {c : Char} (h : c.isDigit = true) : isDecimal c = true := by
  simp only [Char.isDigit, Bool.and_eq_true, decide_eq_true_eq, ge_iff_le,
    UInt32.le_iff_toNat_le] at h
  have hrange : 0x30 ≤ c.toNat ∧ c.toNat ≤ 0x39 := h
  have hmem : (0x30, 0x39) ∈ decimalRanges := List.mem_cons_self
  exact List.any_eq_true.2 ⟨_, hmem, by simp [hrange]⟩

theorem all_isDigit_toDigits (n : Nat) : (Nat.toDigits 10 n).all Char.isDigit = true :=
  List.all_eq_true.2 fun _ hc => Nat.isDigit_of_mem_toDigits (by decide) (by decide) hc

theorem decimal?_toDigits (n : Nat) : decimal? (Nat.toDigits 10 n) = some n := by
  have hnonempty : (Nat.toDigits 10 n).isEmpty = false := by simp
  have hvalue : (Nat.toDigits 10 n).foldl (fun n c => 10 * n + (c.toNat - 48)) 0 = n :=
    Nat.ofDigitChars_ten_toDigits
  simp [decimal?, all_isDigit_toDigits n, hnonempty, hvalue]

/-- A number of 64 bits is read back from its digits. -/
theorem word64?_toDigits (n : UInt64) : word64? (Nat.toDigits 10 n.toNat) = some n := by
  have hbound : n.toNat < wordBound := n.toNat_lt
  rw [word64?, decimal?_toDigits, Option.bind_some, if_pos hbound, UInt64.ofNat_toNat]

/-- Decimal digits, at least one, with this value. -/
structure Denotes (digits : List Char) (n : UInt64) : Prop where
  ne_nil : digits ≠ []
  isDigit : ∀ c ∈ digits, c.isDigit = true
  value : Nat.ofDigitChars 10 digits 0 = n.toNat

/-- Which texts are read as which number. -/
theorem decimal?_eq_some_iff {digits : List Char} {n : Nat} :
    decimal? digits = some n ↔
      digits ≠ [] ∧ (∀ c ∈ digits, c.isDigit = true) ∧ Nat.ofDigitChars 10 digits 0 = n := by
  unfold decimal?
  split
  next hbad =>
    simp only [Bool.or_eq_true, List.isEmpty_iff, Bool.not_eq_true', ← Bool.not_eq_true,
      List.all_eq_true] at hbad
    constructor
    · intro h
      cases h
    · rintro ⟨hne, hdigits, -⟩
      exact absurd hbad (not_or.2 ⟨hne, fun h => h hdigits⟩)
  next hgood =>
    simp only [Bool.or_eq_true, List.isEmpty_iff, Bool.not_eq_true', ← Bool.not_eq_true,
      List.all_eq_true, not_or, not_not] at hgood
    exact ⟨fun h => ⟨hgood.1, hgood.2, Option.some.inj h⟩, fun h => congrArg some h.2.2⟩

theorem word64?_eq_some_iff {digits : List Char} {n : UInt64} :
    word64? digits = some n ↔ Denotes digits n := by
  rw [word64?, Option.bind_eq_some_iff]
  constructor
  · rintro ⟨m, hm, hn⟩
    obtain ⟨hne, hdigits, hvalue⟩ := decimal?_eq_some_iff.1 hm
    split at hn
    next hbound =>
      have hword : (UInt64.ofNat m).toNat = m := by
        rw [UInt64.toNat_ofNat']
        exact Nat.mod_eq_of_lt hbound
      obtain rfl := Option.some.inj hn
      exact ⟨hne, hdigits, hvalue.trans hword.symm⟩
    next => cases hn
  · rintro ⟨hne, hdigits, hvalue⟩
    have hbound : n.toNat < wordBound := n.toNat_lt
    refine ⟨n.toNat, decimal?_eq_some_iff.2 ⟨hne, hdigits, hvalue⟩, ?_⟩
    rw [if_pos hbound, UInt64.ofNat_toNat]

end CodeImpact.Text
